import TreeMachine.Proofs.Json.Numbers
import TreeMachine.Proofs.Json.Strings

/-!
# Texts of values are read back

The text of a value is read as the tree that the value is written as, only that a number is what its
word is read as (`Value.reread`). This is an induction on the value, with what follows its text as a
continuation (`Value.run_text`); the same for the items and fields that are left of an array or
object.

The reader is a machine that goes through the characters one by one. It has a stack of the arrays
and objects that are open, and it knows what may come next. The statement about a value is therefore
relative to a state of the reader in which a value may come, and says that after the text the reader
has put the tree in its place and is about to read the rest (`Reader.place`). A word, such as a
number, has ended only when the next character does not belong to it, so it is asked of the rest
that it ends words.

Strings are quoted and escaped when they are written, and they stay escaped in the tree. That an
escaped string ends where it should is shown separately, as is the reading of numbers. The limit on
nesting is not checked by the machine but when the tree is turned into a value.

Blanks are left out: the writer puts none, and the texts of other writers are not studied here.
-/

namespace TreeMachine.Json

/-! ### What a text is read as -/

/-- What the text of a number is read as. -/
def Number.reread (n : Number) : Option Tree :=
  match n.tree with
  | .number l => Tree.ofWord? l.text
  | t => some t

mutual

/-- What the text of a value is read as. -/
def Value.reread : Value → Option Tree
  | .null => some .null
  | .bool b => some (.bool b)
  | .number n => n.reread
  | .string s => some (.string (escape s.toList))
  | .array vs => (Value.rereads vs).map .array
  | .object fs => (Value.rereadFields fs).map .object

/-- What the texts of the items of an array are read as. -/
def Value.rereads : List Value → Option (List Tree)
  | [] => some []
  | v :: vs => v.reread.bind fun t => (Value.rereads vs).map (t :: ·)

/-- What the texts of the fields of an object are read as. -/
def Value.rereadFields : List (String × Value) → Option (List (List Char × Tree))
  | [] => some []
  | (k, v) :: fs =>
    v.reread.bind fun t => (Value.rereadFields fs).map ((escape k.toList, t) :: ·)

end

/-! ### Tokens -/

namespace Reader

variable {r : Reader}

/-- A value may come next. -/
def WantsValue (r : Reader) : Prop :=
  r.expected = .value ∨ r.expected = .firstItem

theorem take_word (h : r.WantsValue) (w : List Char) :
    r.take (.word w) = (Tree.ofWord? w).bind r.place := by
  obtain ⟨stack, expected, root⟩ := r
  rcases h with rfl | rfl
  all_goals rfl

theorem take_string (h : r.WantsValue) (raw : List Char) :
    r.take (.string raw) = r.place (.string raw) := by
  obtain ⟨stack, expected, root⟩ := r
  rcases h with rfl | rfl
  all_goals rfl

theorem take_openArray (h : r.WantsValue) :
    r.take .openArray = some { r with stack := .array [] :: r.stack, expected := .firstItem } := by
  obtain ⟨stack, expected, root⟩ := r
  rcases h with rfl | rfl
  all_goals rfl

theorem take_openObject (h : r.WantsValue) :
    r.take .openObject = some { r with stack := .object [] :: r.stack, expected := .firstKey } := by
  obtain ⟨stack, expected, root⟩ := r
  rcases h with rfl | rfl
  all_goals rfl

/-- An array is closed where its first item or a separator may come. -/
theorem take_closeArray {items : List Tree} {stack : List Open}
    (hstack : r.stack = .array items :: stack)
    (hexpected : r.expected = .firstItem ∨ r.expected = .separator) :
    r.take .closeArray = place { r with stack := stack } (.array items.reverse) := by
  obtain ⟨_, expected, root⟩ := r
  cases hstack
  rcases hexpected with rfl | rfl
  all_goals rfl

/-- An object is closed where its first key or a separator may come. -/
theorem take_closeObject {fields : List (List Char × Tree)} {stack : List Open}
    (hstack : r.stack = .object fields :: stack)
    (hexpected : r.expected = .firstKey ∨ r.expected = .separator) :
    r.take .closeObject = place { r with stack := stack } (.object fields.reverse) := by
  obtain ⟨_, expected, root⟩ := r
  cases hstack
  rcases hexpected with rfl | rfl
  all_goals rfl

theorem take_key {fields : List (List Char × Tree)} {stack : List Open}
    (hstack : r.stack = .object fields :: stack)
    (hexpected : r.expected = .firstKey ∨ r.expected = .key) (k : List Char) :
    r.take (.string k) =
      some { r with stack := .member fields k :: stack, expected := .colon } := by
  obtain ⟨_, expected, root⟩ := r
  cases hstack
  rcases hexpected with rfl | rfl
  all_goals rfl

/-- After a comma in an array comes an item. -/
theorem take_comma_array {items : List Tree} {stack : List Open}
    (hstack : r.stack = .array items :: stack) (hexpected : r.expected = .separator) :
    r.take .comma = some { r with expected := .value } := by
  obtain ⟨_, expected, root⟩ := r
  cases hstack
  cases hexpected
  rfl

/-- After a comma in an object comes a key. -/
theorem take_comma_object {fields : List (List Char × Tree)} {stack : List Open}
    (hstack : r.stack = .object fields :: stack) (hexpected : r.expected = .separator) :
    r.take .comma = some { r with expected := .key } := by
  obtain ⟨_, expected, root⟩ := r
  cases hstack
  cases hexpected
  rfl

/-- Where a value is put depends on the stack. -/
theorem place_expected (r : Reader) (e : Expected) (t : Tree) :
    place { r with expected := e } t = r.place t := by
  obtain ⟨stack, expected, root⟩ := r
  cases stack with
  | nil => rfl
  | cons o stack => cases o <;> rfl

/-- A word begins with a character that is no blank and no quote. -/
theorem begin_word (r : Reader) {c : Char} (h : isWordChar c = true) :
    r.begin c = some (r, .word [c]) := by
  have hspace : ¬isSpace c = true := by
    intro hspace
    simp only [isSpace, Bool.or_eq_true, beq_iff_eq] at hspace
    rcases hspace with ((rfl | rfl) | rfl) | rfl
    all_goals exact absurd h (by decide)
  have hquote : c ≠ '"' := by
    rintro rfl
    exact absurd h (by decide)
  rw [begin, if_neg hspace, if_neg hquote, if_pos h]

/-- The characters of a word that are left. -/
theorem run_wordChars (r : Reader) (rev : List Char) {w : List Char}
    (hw : ∀ c ∈ w, isWordChar c = true) (cs : List Char) :
    run (r, .word rev) (w ++ cs) = run (r, .word (w.reverse ++ rev)) cs := by
  induction w generalizing rev with
  | nil => rfl
  | cons c w ih =>
    obtain ⟨hc, hw⟩ := List.forall_mem_cons.1 hw
    have hnext : next (r, .word rev) c = some (r, .word (c :: rev)) := by
      rw [next, if_pos hc]
    rw [List.cons_append, run_of_next hnext, ih _ hw, List.reverse_cons, List.append_assoc]
    rfl

/-- What comes after a word does not belong to it. -/
def EndsWord (cs : List Char) : Prop :=
  ∀ c ∈ cs.head?, isWordChar c = false

theorem endsWord_cons {c : Char} (h : isWordChar c = false) (cs : List Char) :
    EndsWord (c :: cs) := by
  rintro _ ⟨⟩
  exact h

/-- **A word is one token.** It is taken in when it has ended. -/
theorem run_word (r : Reader) {w : List Char} (hw : IsWord w) {cs : List Char}
    (hcs : EndsWord cs) :
    run (r, .nothing) (w ++ cs) = (r.take (.word w)).bind fun r' => run (r', .nothing) cs := by
  obtain ⟨hne, hchars⟩ := hw
  cases w with
  | nil => exact absurd rfl hne
  | cons c w =>
    obtain ⟨hc, hw⟩ := List.forall_mem_cons.1 hchars
    have hbegin : next (r, .nothing) c = some (r, .word [c]) := begin_word r hc
    rw [List.cons_append, run_of_next hbegin, run_wordChars r [c] hw]
    have hrev : (w.reverse ++ [c]).reverse = c :: w := by
      rw [List.reverse_append, List.reverse_reverse]
      rfl
    -- The end of the text ends the word as well as a character that does not belong to it.
    cases cs with
    | nil =>
      have hfinish : finish (r, .word (w.reverse ++ [c])) =
          (r.take (.word (c :: w))).bind fun r' => finish (r', .nothing) := by
        rw [← hrev]
        rfl
      exact hfinish
    | cons d cs =>
      have hd : ¬isWordChar d = true := by
        rw [hcs d rfl]
        exact Bool.false_ne_true
      rw [run_cons, next, if_neg hd, hrev, Option.bind_assoc]
      refine congrArg (Option.bind _) (funext fun r' => ?_)
      rw [run_cons]
      rfl

/-- A word that stands for a value. -/
theorem run_valueWord (hr : r.WantsValue) {w : List Char} (hw : IsWord w) {cs : List Char}
    (hcs : EndsWord cs) : run (r, .nothing) (w ++ cs) =
      ((Tree.ofWord? w).bind r.place).bind fun r' => run (r', .nothing) cs := by
  rw [run_word r hw hcs, take_word hr]

/-- A punctuation character is a token. -/
theorem run_token (r : Reader) {c : Char} {t : Token} (hspace : isSpace c = false)
    (hquote : c ≠ '"') (hword : isWordChar c = false) (ht : Token.ofChar? c = some t)
    (cs : List Char) :
    run (r, .nothing) (c :: cs) = (r.take t).bind fun r' => run (r', .nothing) cs := by
  have hnext : next (r, .nothing) c = (r.take t).map fun r' => (r', .nothing) := by
    have hspace' : ¬isSpace c = true := by rw [hspace]; exact Bool.false_ne_true
    have hword' : ¬isWordChar c = true := by rw [hword]; exact Bool.false_ne_true
    rw [next, begin, if_neg hspace', if_neg hquote, if_neg hword', ht]
    simp only [Option.bind_eq_bind, Option.bind_some]
    cases r.take t <;> rfl
  rw [run_cons, hnext, Option.bind_map]
  rfl

theorem run_quoted (r : Reader) (s cs : List Char) :
    run (r, .nothing) (quoted (escape s) ++ cs) =
      (r.take (.string (escape s))).bind fun r' => run (r', .nothing) cs := by
  have hquote : next (r, .nothing) '"' = some (r, .string []) := rfl
  have happend : quoted (escape s) ++ cs = '"' :: (escape s ++ '"' :: cs) := by
    rw [quoted, List.append_assoc, List.cons_append]
    rfl
  rw [happend, run_of_next hquote, run_string]
  rfl

end Reader

/-! ### Texts -/

open Reader

/-- A number is written as a word. -/
theorem Number.run_text (n : Number) {r : Reader} (hr : r.WantsValue) {cs : List Char}
    (hcs : EndsWord cs) :
    run (r, .nothing) (n.tree.text ++ cs) =
      (n.reread.bind r.place).bind fun r' => run (r', .nothing) cs := by
  cases n with
  | int n => exact run_valueWord hr (Literal.isNumeral_ofInt n).isWord hcs
  | float x =>
    cases hx : Literal.ofFloat? x with
    | some l =>
      simp only [reread, tree, hx]
      exact run_valueWord hr (Literal.isNumeral_ofFloat? hx).isWord hcs
    | none =>
      have hnull : IsWord "null".toList := .of_all (by decide) (by decide)
      simp only [reread, tree, hx, Tree.text]
      exact run_valueWord hr hnull hcs

theorem endsWord_restText (vs : List Value) (cs : List Char) :
    EndsWord (Tree.restText (Value.trees vs) ++ cs) := by
  cases vs <;> exact endsWord_cons (by decide) _

theorem endsWord_restFieldsText (fs : List (String × Value)) (cs : List Char) :
    EndsWord (Tree.restFieldsText (Value.fieldTrees fs) ++ cs) := by
  cases fs with
  | nil => exact endsWord_cons (by decide) _
  | cons f fs => exact endsWord_cons (by decide) _

/-- A key and its colon. -/
theorem run_key {r : Reader} {fields : List (List Char × Tree)} {stack : List Open}
    (hstack : r.stack = .object fields :: stack)
    (hexpected : r.expected = .firstKey ∨ r.expected = .key) (k cs : List Char) :
    run (r, .nothing) (quoted (escape k) ++ ':' :: cs) =
      run ({ r with stack := .member fields (escape k) :: stack, expected := .value }, .nothing)
        cs := by
  have hcolon : Token.ofChar? ':' = some .colon := rfl
  rw [run_quoted, take_key hstack hexpected, Option.bind_some]
  exact run_token _ (by decide) (by decide) (by decide) hcolon cs

mutual

/-- **The text of a value** is read as a value where one is wanted. -/
theorem Value.run_text (v : Value) {r : Reader} (hr : r.WantsValue) {cs : List Char}
    (hcs : EndsWord cs) :
    run (r, .nothing) (v.tree.text ++ cs) =
      (v.reread.bind r.place).bind fun r' => run (r', .nothing) cs := by
  cases v with
  | null =>
    have hword : IsWord "null".toList := .of_all (by decide) (by decide)
    exact run_valueWord hr hword hcs
  | bool b =>
    cases b with
    | true =>
      have hword : IsWord "true".toList := .of_all (by decide) (by decide)
      exact run_valueWord hr hword hcs
    | false =>
      have hword : IsWord "false".toList := .of_all (by decide) (by decide)
      exact run_valueWord hr hword hcs
  | number n => exact n.run_text hr hcs
  | string s => exact (run_quoted r s.toList cs).trans (by rw [take_string hr]; rfl)
  | array vs =>
    have hopen := fun cs => run_token r (c := '[') (t := .openArray) (by decide) (by decide)
      (by decide) rfl cs
    rw [take_openArray hr] at hopen
    cases vs with
    | nil =>
      -- The bracket closes the array where its first item is still expected.
      refine (hopen _).trans ((run_token _ (by decide) (by decide) (by decide) rfl cs).trans ?_)
      rw [take_closeArray rfl (.inl rfl)]
      exact congrArg (Option.bind · _) (place_expected r .firstItem _)
    | cons v vs =>
      simp only [Value.tree, Value.trees, Tree.text, List.cons_append, List.append_assoc]
      refine (hopen _).trans ?_
      -- The first item is read with the text of the others as what follows it.
      rw [Option.bind_some, Value.run_text v (.inr rfl) (endsWord_restText vs cs)]
      simp only [Value.reread, Value.rereads]
      cases v.reread with
      | none => rfl
      | some t =>
        simp only [Option.bind_some, place]
        rw [Value.run_items vs rfl rfl]
        cases Value.rereads vs with
        | none => rfl
        | some ts => exact congrArg (Option.bind · _) (place_expected r .separator _)
  | object fs =>
    have hopen := fun cs => run_token r (c := '\x7b') (t := .openObject) (by decide) (by decide)
      (by decide) rfl cs
    rw [take_openObject hr] at hopen
    cases fs with
    | nil =>
      refine (hopen _).trans ((run_token _ (by decide) (by decide) (by decide) rfl cs).trans ?_)
      rw [take_closeObject rfl (.inl rfl)]
      exact congrArg (Option.bind · _) (place_expected r .firstKey _)
    | cons f fs =>
      obtain ⟨k, v⟩ := f
      simp only [Value.tree, Value.fieldTrees, Tree.text, List.cons_append, List.append_assoc]
      refine (hopen _).trans ?_
      rw [Option.bind_some, run_key rfl (.inl rfl),
        Value.run_text v (.inl rfl) (endsWord_restFieldsText fs cs)]
      simp only [Value.reread, Value.rereadFields]
      cases v.reread with
      | none => rfl
      | some t =>
        simp only [Option.bind_some, place]
        rw [Value.run_fields fs rfl rfl]
        cases Value.rereadFields fs with
        | none => rfl
        | some ts => exact congrArg (Option.bind · _) (place_expected r .separator _)

/-- The texts of the items that are left of an array. -/
theorem Value.run_items (vs : List Value) {r : Reader} {items : List Tree} {stack : List Open}
    (hstack : r.stack = .array items :: stack) (hexpected : r.expected = .separator)
    (cs : List Char) :
    run (r, .nothing) (Tree.restText (Value.trees vs) ++ cs) =
      ((Value.rereads vs).bind fun ts =>
        place { r with stack := stack } (.array (items.reverse ++ ts))).bind
          fun r' => run (r', .nothing) cs := by
  cases vs with
  | nil =>
    refine (run_token r (by decide) (by decide) (by decide) rfl cs).trans ?_
    rw [take_closeArray hstack (.inr hexpected), Value.rereads, Option.bind_some, List.append_nil]
  | cons v vs =>
    simp only [Value.trees, Tree.restText, List.cons_append, List.append_assoc]
    refine (run_token r (by decide) (by decide) (by decide) rfl _).trans ?_
    rw [take_comma_array hstack hexpected, Option.bind_some,
      Value.run_text v (.inl rfl) (endsWord_restText vs cs)]
    simp only [Value.rereads]
    cases v.reread with
    | none => rfl
    | some t =>
      simp only [Option.bind_some, place, hstack]
      rw [Value.run_items vs rfl rfl]
      cases Value.rereads vs with
      | none => rfl
      | some ts =>
        simp only [Option.bind_some, Option.map_some, List.reverse_cons, List.append_assoc]
        exact congrArg (Option.bind · _) (place_expected { r with stack := stack } .separator _)

/-- The texts of the fields that are left of an object. -/
theorem Value.run_fields (fs : List (String × Value)) {r : Reader}
    {fields : List (List Char × Tree)} {stack : List Open}
    (hstack : r.stack = .object fields :: stack) (hexpected : r.expected = .separator)
    (cs : List Char) :
    run (r, .nothing) (Tree.restFieldsText (Value.fieldTrees fs) ++ cs) =
      ((Value.rereadFields fs).bind fun ts =>
        place { r with stack := stack } (.object (fields.reverse ++ ts))).bind
          fun r' => run (r', .nothing) cs := by
  cases fs with
  | nil =>
    refine (run_token r (by decide) (by decide) (by decide) rfl cs).trans ?_
    rw [take_closeObject hstack (.inr hexpected), Value.rereadFields, Option.bind_some,
      List.append_nil]
  | cons f fs =>
    obtain ⟨k, v⟩ := f
    simp only [Value.fieldTrees, Tree.restFieldsText, List.cons_append, List.append_assoc]
    refine (run_token r (by decide) (by decide) (by decide) rfl _).trans ?_
    rw [take_comma_object hstack hexpected, Option.bind_some,
      run_key (r := { r with expected := .key }) hstack (.inr rfl),
      Value.run_text v (.inl rfl) (endsWord_restFieldsText fs cs)]
    simp only [Value.rereadFields]
    cases v.reread with
    | none => rfl
    | some t =>
      simp only [Option.bind_some, place]
      rw [Value.run_fields fs rfl rfl]
      cases Value.rereadFields fs with
      | none => rfl
      | some ts =>
        simp only [Option.bind_some, Option.map_some, List.reverse_cons, List.append_assoc]
        exact congrArg (Option.bind · _) (place_expected { r with stack := stack } .separator _)

end

/-- **The text of a value is read back** as the tree that it is written as, with its numbers read
again. -/
theorem Value.ofText?_text (v : Value) : Tree.ofText? v.text = v.reread := by
  have hrun : run (.start, .nothing) (v.tree.text ++ []) = _ := v.run_text (.inl rfl) nofun
  rw [List.append_nil] at hrun
  rw [Value.text, Tree.ofText?, String.toList_ofList]
  refine hrun.trans ?_
  cases v.reread <;> rfl

end TreeMachine.Json
