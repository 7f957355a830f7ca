import Mathlib.Data.List.Forall2
import TreeMachine.Json.Fields
import TreeMachine.Proofs.Json.Texts

/-!
# Values are read back

What comes back of a value that is written to a text and read again (`Value.back`). Strings, arrays
and objects come back as they are, with what comes back of their parts, as long as they are not
nested too deep; so do integers of 64 bits. What comes back of a double is left open here.

A reader of values may then be asked for what it makes of a value that has come back
(`Value.reads`). The fields of an object may be read one by one (`Fields.required_back`).

The equations of this module are the only ones that the formats of programs and snapshots need to
know of texts. A format is a writer to values and a reader from values, and to show that something
is read back is to rewrite with these equations: an object is read from its fields, a field from its
value, a list item by item. Characters, escapes and tokens do not occur any more.

`Value.back` is partial. A number outside of 64 bits comes back as a double or not at all, an
infinite one comes back as null, and a value that is nested deeper than there are levels does not
come back. So everything is stated with options, and a reader gets something only if all that it
looks at has come back. An object comes back as a whole: one field that is lost is enough for it to
be lost.
-/

namespace TreeMachine.Json

/-! ### Fields -/

namespace Fields

variable {α β : Type} {g : α → Option β} {fs : Fields α} {fs' : Fields β} {key : String} {v : α}

/-- Changes the value of every field; nothing if one of them cannot be changed. -/
def mapValues? (g : α → Option β) (fs : Fields α) : Option (Fields β) :=
  fs.mapM fun f => (g f.2).map (f.1, ·)

/-- A field with its value changed. -/
def Changed (g : α → Option β) (f : String × α) (f' : String × β) : Prop :=
  f'.1 = f.1 ∧ g f.2 = some f'.2

theorem forall₂_of_mapValues? (h : fs.mapValues? g = some fs') :
    List.Forall₂ (Changed g) fs fs' := by
  induction fs generalizing fs' with
  | nil =>
    cases h
    exact .nil
  | cons f fs ih =>
    rw [mapValues?, List.mapM_cons] at h
    obtain ⟨f', hf, h⟩ := Option.bind_eq_some_iff.1 h
    obtain ⟨rest, hrest, h⟩ := Option.bind_eq_some_iff.1 h
    obtain ⟨v', hv, rfl⟩ := Option.map_eq_some_iff.1 hf
    cases h
    exact .cons ⟨rfl, hv⟩ (ih hrest)

theorem exists_mapValues? (h : ∀ f ∈ fs, ∃ v', g f.2 = some v') :
    ∃ fs', fs.mapValues? g = some fs' := by
  induction fs with
  | nil => exact ⟨[], rfl⟩
  | cons f fs ih =>
    obtain ⟨⟨v', hv⟩, h⟩ := List.forall_mem_cons.1 h
    obtain ⟨fs', hfs⟩ := ih h
    rw [mapValues?] at hfs
    exact ⟨(f.1, v') :: fs', by rw [mapValues?, List.mapM_cons, hv, hfs]; rfl⟩

/-- The fields of a key are changed into the fields of the key. -/
theorem filter_mapValues? (h : fs.mapValues? g = some fs') (key : String) :
    List.Forall₂ (Changed g) (fs.filter fun f => f.1 == key)
      (fs'.filter fun f => f.1 == key) := by
  have hall := forall₂_of_mapValues? h
  clear h
  induction hall with
  | nil => exact .nil
  | @cons f f' _ _ hf _ ih =>
    rw [List.filter_cons, List.filter_cons, hf.1]
    split
    · exact .cons hf ih
    · exact ih

/-- **A changed field** is found under its key. -/
theorem lookup?_mapValues? (h : fs.mapValues? g = some fs')
    (hlookup : fs.lookup? key = some (some v)) :
    ∃ v', g v = some v' ∧ fs'.lookup? key = some (some v') := by
  have hfilter := filter_mapValues? h key
  unfold Fields.lookup? at hlookup ⊢
  split at hlookup
  · cases hlookup
  · rename_i f hf
    cases hlookup
    rw [hf] at hfilter
    obtain ⟨f', _, hchanged, hnil, hf'⟩ := List.forall₂_cons_left_iff.1 hfilter
    cases hnil
    exact ⟨f'.2, hchanged.2, by rw [hf']⟩
  · cases hlookup

variable {γ : Type}

/-- **A required field** that was changed is read as its changed value is. -/
theorem required_mapValues? (h : fs.mapValues? g = some fs')
    (hlookup : fs.lookup? key = some (some v)) (read : β → Option γ) :
    fs'.required key read = (g v).bind read := by
  obtain ⟨v', hv, hlookup'⟩ := lookup?_mapValues? h hlookup
  rw [required, hlookup', hv]
  rfl

/-- A field that has a default and was changed is read as its changed value is. -/
theorem defaulted_mapValues? (h : fs.mapValues? g = some fs')
    (hlookup : fs.lookup? key = some (some v)) (absent : γ) (read : β → Option γ) :
    fs'.defaulted key absent read = (g v).bind read := by
  obtain ⟨v', hv, hlookup'⟩ := lookup?_mapValues? h hlookup
  rw [defaulted, hlookup', hv]
  rfl

end Fields

namespace Value

/-- What comes back of a value, with so many levels left. -/
def back (levels : Nat) (v : Value) : Option Value :=
  v.reread.bind (Tree.value? levels)

/-- What comes back of the fields of an object. -/
def backFields (levels : Nat) (fs : Fields Value) : Option (Fields Value) :=
  fs.mapM fun f => (f.2.back levels).map (f.1, ·)

/-- What a reader makes of a value that has come back. -/
def reads {α : Type} (levels : Nat) (read : Value → Option α) (v : Value) : Option α :=
  (v.back levels).bind read

/-- **A text is read** as the value that comes back of the one that it was written for. -/
theorem ofText?_eq_back (v : Value) : ofText? v.text = v.back maxLevels := by
  rw [ofText?, ofText?_text]
  rfl

variable {levels : Nat}

theorem readString?_escape (s : String) : readString? (escape s.toList) = some s := by
  rw [readString?, unescape?_escape, Option.map_some, String.ofList_toList]

@[simp] theorem back_string (s : String) : back levels (.string s) = some (.string s) := by
  rw [back, reread, Option.bind_some, Tree.value?, readString?_escape]
  rfl

/-- **Integers** of 64 bits come back. -/
theorem back_int {n : Int} (hlow : Word.minSigned ≤ n) (hhigh : n ≤ Word.max64) :
    back levels (.number (.int n)) = some (.number (.int n)) := by
  have hreread : reread (.number (.int n)) = some (.number (.ofInt n)) := Tree.ofWord?_ofInt n
  rw [back, hreread, Option.bind_some, Tree.value?, Literal.number?_ofInt hlow hhigh]
  rfl

theorem back_ofNat {n : Nat} (hn : n ≤ Word.max64) : back levels (.ofNat n) = some (.ofNat n) := by
  refine back_int ?_ ?_
  · have hneg : Word.minSigned ≤ 0 := by decide
    omega
  · exact Int.ofNat_le.2 hn

/-! ### Parts -/

theorem rereads_values (vs : List Value) :
    (rereads vs).bind (Tree.values? levels) = vs.mapM (back levels) := by
  induction vs with
  | nil => rfl
  | cons v vs ih =>
    rw [List.mapM_cons, ← ih, back, rereads]
    cases v.reread with
    | none => rfl
    | some t =>
      cases rereads vs with
      | none => cases hv : Tree.value? levels t <;> simp [hv]
      | some ts => rfl

theorem rereadFields_values (fs : Fields Value) :
    (rereadFields fs).bind (Tree.fieldValues? levels) = backFields levels fs := by
  induction fs with
  | nil => rfl
  | cons f fs ih =>
    obtain ⟨k, v⟩ := f
    rw [backFields, List.mapM_cons]
    rw [backFields] at ih
    rw [← ih, back, rereadFields]
    cases v.reread with
    | none => rfl
    | some t =>
      cases rereadFields fs with
      | none => cases hv : Tree.value? levels t <;> simp [hv]
      | some ts =>
        simp only [Option.bind_some, Option.map_some, Tree.fieldValues?, readString?_escape]
        cases Tree.value? levels t <;> rfl

/-- **Arrays** come back with what comes back of their items. -/
theorem back_array (vs : List Value) :
    back (levels + 1) (.array vs) = (vs.mapM (back levels)).map .array := by
  rw [back, reread, ← rereads_values]
  cases rereads vs <;> rfl

/-- **Objects** come back with what comes back of their fields. -/
theorem back_object (fs : Fields Value) :
    back (levels + 1) (.object fs) = (backFields levels fs).map .object := by
  rw [back, reread, ← rereadFields_values]
  cases rereadFields fs <;> rfl

/-! ### Readers -/

variable {α : Type} {read : Value → Option α}

theorem back_of_reads {v : Value} {a : α} (h : reads levels read v = some a) :
    ∃ v', v.back levels = some v' ∧ read v' = some a :=
  Option.bind_eq_some_iff.1 h

/-- A list is read item by item. -/
theorem reads_listOf? (vs : List Value) :
    reads (levels + 1) (listOf? read) (.array vs) = vs.mapM (reads levels read) := by
  rw [reads, back_array]
  induction vs with
  | nil => rfl
  | cons v vs ih =>
    rw [List.mapM_cons, List.mapM_cons, ← ih, reads]
    cases v.back levels with
    | none => rfl
    | some v' =>
      cases vs.mapM (back levels) with
      | none => cases hv : read v' <;> simp [hv]
      | some vs' => simp [listOf?, items?]

theorem reads_object {fs fs' : Fields Value} (h : backFields levels fs = some fs') :
    reads (levels + 1) read (.object fs) = read (.object fs') := by
  rw [reads, back_object, h]
  rfl

/-- A reader that has an object to read has all its fields. -/
theorem fields_of_reads {fs : Fields Value} {a : α}
    (h : reads (levels + 1) read (.object fs) = some a) :
    ∃ fs', backFields levels fs = some fs' ∧ read (.object fs') = some a := by
  rw [reads, back_object, Option.bind_map] at h
  exact Option.bind_eq_some_iff.1 h

/-- All fields come back if each of them does. -/
theorem exists_backFields {fs : Fields Value} (h : ∀ f ∈ fs, ∃ v', f.2.back levels = some v') :
    ∃ fs', backFields levels fs = some fs' :=
  Fields.exists_mapValues? h

end Value

namespace Fields

open Value

variable {levels : Nat} {fs fs' : Fields Value} {key : String} {v : Value} {α : Type}

/-- **A required field** is read as its value is. -/
theorem required_back (h : backFields levels fs = some fs')
    (hlookup : fs.lookup? key = some (some v)) (read : Value → Option α) :
    fs'.required key read = reads levels read v :=
  required_mapValues? h hlookup read

/-- A nullable field is read as its value is. -/
theorem nullable_back (h : backFields levels fs = some fs')
    (hlookup : fs.lookup? key = some (some v)) (read : Value → Option α) :
    fs'.nullable key read = reads levels (nullable? read) v :=
  defaulted_mapValues? h hlookup none (nullable? read)

end Fields

end TreeMachine.Json
