import TreeMachine.Value

/-!
# Environments

The environment of an activation maps nodes to values: a variable to its content, an expression to
the value it was last seen to have, and a loop or select to the state it keeps between its parts.

Entries are kept in an order of their keys, and there is one for each key; an environment carries
the proof of this with it. So two environments with the same content are equal (`Env.ext_get?`), and
equations between environments are proved by reading both at an arbitrary key. For reading there is
one law, that a key reads as it was written last (`Env.get?_put`).

Later nodes come first: a run mostly writes the nodes of a body one after the other, which so
happens near the beginning of the list. Nothing else depends on the order. In particular it is not
the one in which an environment is saved, which may be any.

There is no way to take an entry out. Values stay remembered for as long as the activation lives,
and a variable that is declared again is written as uninitialized (`Env.declare`). Writing entries
one after the other into an empty environment (`Env.ofList`) is how one is read from where it was
saved.
-/

namespace TreeMachine

/-- A node that an environment has a value for. -/
inductive Key
  | expr (id : ExprId)
  | stmt (id : StmtId)
  | var (id : VarId)
  deriving DecidableEq, Repr

namespace Key

/-- The place of a key's table in the order of the keys. -/
def rank : Key → Nat
  | .expr _ => 0
  | .stmt _ => 1
  | .var _ => 2

/-- The position of a key in its table. -/
def index : Key → Nat
  | .expr id => id.index
  | .stmt id => id.index
  | .var id => id.index

/-- A key as it is named in messages. -/
def text : Key → String
  | .expr id => id.text
  | .stmt id => id.text
  | .var id => id.text

/-- Keys are ordered by table, then by position, the later ones first. -/
def Before (a b : Key) : Prop :=
  b.rank < a.rank ∨ a.rank = b.rank ∧ b.index < a.index

instance : LT Key := ⟨Before⟩

instance (a b : Key) : Decidable (a < b) :=
  inferInstanceAs (Decidable (b.rank < a.rank ∨ a.rank = b.rank ∧ b.index < a.index))

theorem lt_def {a b : Key} : a < b ↔ b.rank < a.rank ∨ a.rank = b.rank ∧ b.index < a.index :=
  Iff.rfl

theorem lt_irrefl (a : Key) : ¬a < a := by
  rw [lt_def]; omega

theorem lt_trans {a b c : Key} (h : a < b) (h' : b < c) : a < c := by
  rw [lt_def] at *; omega

theorem ne_of_lt {a b : Key} (h : a < b) : a ≠ b :=
  fun e => lt_irrefl b (e ▸ h)

/-- Rank and index determine a key. -/
theorem eq_of_rank_index {a b : Key} (hr : a.rank = b.rank) (hi : a.index = b.index) : a = b := by
  rcases a with ⟨⟨a⟩⟩ | ⟨⟨a⟩⟩ | ⟨⟨a⟩⟩ <;> rcases b with ⟨⟨b⟩⟩ | ⟨⟨b⟩⟩ | ⟨⟨b⟩⟩ <;>
    simp_all [rank, index]

/-- Of two different keys one is before the other. -/
theorem lt_of_not_lt {a b : Key} (hne : a ≠ b) (h : ¬a < b) : b < a := by
  have hri : ¬(a.rank = b.rank ∧ a.index = b.index) := fun e => hne (eq_of_rank_index e.1 e.2)
  rw [lt_def] at *; omega

end Key

/-- A list of entries, with one of them written: in the place of an entry of the same key, or in
the order of the keys. -/
def Env.insert (k : Key) (v : Value) : List (Key × Value) → List (Key × Value)
  | [] => [(k, v)]
  | e :: es =>
    if e.1 = k then (k, v) :: es
    else if k < e.1 then (k, v) :: e :: es
    else e :: Env.insert k v es

/-- The keys after a write are those before it and the one written. -/
theorem Env.mem_insert {k : Key} {v : Value} {es : List (Key × Value)} {e : Key × Value}
    (h : e ∈ Env.insert k v es) : e = (k, v) ∨ e ∈ es := by
  induction es with
  | nil => simpa [Env.insert] using h
  | cons d es ih =>
    simp only [Env.insert] at h
    split at h
    · rcases List.mem_cons.1 h with h | h
      · exact .inl h
      · exact .inr (List.mem_cons_of_mem _ h)
    · split at h
      · simpa using h
      · rcases List.mem_cons.1 h with h | h
        · exact .inr (h ▸ List.mem_cons_self)
        · exact (ih h).imp_right (List.mem_cons_of_mem _)

/-- A write keeps the entries in order. -/
theorem Env.ordered_insert {k : Key} {v : Value} {es : List (Key × Value)}
    (h : es.Pairwise fun a b => a.1 < b.1) : (Env.insert k v es).Pairwise fun a b => a.1 < b.1 := by
  induction es with
  | nil => simp [Env.insert]
  | cons d es ih =>
    obtain ⟨hd, hes⟩ := List.pairwise_cons.1 h
    simp only [Env.insert]
    split
    · rename_i hk
      exact List.pairwise_cons.2 ⟨fun e he => hk ▸ hd e he, hes⟩
    · split
      · rename_i hlt
        refine List.pairwise_cons.2 ⟨fun e he => ?_, h⟩
        rcases List.mem_cons.1 he with rfl | he
        · exact hlt
        · exact Key.lt_trans hlt (hd e he)
      · rename_i hne hlt
        refine List.pairwise_cons.2 ⟨fun e he => ?_, ih hes⟩
        rcases Env.mem_insert he with rfl | he
        · exact Key.lt_of_not_lt (fun e => hne e.symm) hlt
        · exact hd e he

/-- A finite map from nodes to values. -/
@[ext]
structure Env where
  entries : List (Key × Value)
  ordered : entries.Pairwise fun a b => a.1 < b.1
  deriving DecidableEq

namespace Env

/-- The environment without entries. -/
def empty : Env := ⟨[], .nil⟩

/-- The value of a key among entries. -/
def lookup (k : Key) : List (Key × Value) → Option Value
  | [] => none
  | e :: es => if e.1 = k then some e.2 else lookup k es

/-- The value of a key. -/
def get? (env : Env) (k : Key) : Option Value :=
  lookup k env.entries

/-- Writes the value of a key. -/
def put (env : Env) (k : Key) (v : Value) : Env :=
  ⟨insert k v env.entries, ordered_insert env.ordered⟩

/-- Declares a variable, which is then uninitialized, whatever it held before. -/
def declare (env : Env) (x : VarId) : Env :=
  env.put (.var x) .uninitialized

/-- All values, in the order of their keys. -/
def values (env : Env) : List Value :=
  env.entries.map (·.2)

/-- The number of keys that have a value. -/
def size (env : Env) : Nat :=
  env.entries.length

/-- Writes entries one after the other, so that of two with one key the later counts. -/
def ofList (es : List (Key × Value)) : Env :=
  es.foldl (fun env e => env.put e.1 e.2) empty

/-! ### Reading after writing -/

theorem lookup_insert (k k' : Key) (v : Value) (es : List (Key × Value)) :
    lookup k' (insert k v es) = if k' = k then some v else lookup k' es := by
  induction es with
  | nil =>
    by_cases h : k' = k
    · simp [insert, lookup, h]
    · simp [insert, lookup, h, Ne.symm h]
  | cons e es ih =>
    by_cases he : e.1 = k
    · by_cases h : k' = k
      · simp [insert, lookup, he, h]
      · simp [insert, lookup, he, h, Ne.symm h]
    · by_cases hlt : k < e.1
      · by_cases h : k' = k
        · simp [insert, lookup, he, hlt, h]
        · simp [insert, lookup, he, hlt, h, Ne.symm h]
      · by_cases h : k' = k
        · subst h
          simp [insert, lookup, he, hlt, ih]
        · simp [insert, lookup, he, hlt, ih, h]

/-- A key reads as it was written last. -/
theorem get?_put (env : Env) (k k' : Key) (v : Value) :
    (env.put k v).get? k' = if k' = k then some v else env.get? k' :=
  lookup_insert k k' v env.entries

/-- A key that is before all others has no value. -/
theorem lookup_eq_none {k : Key} {es : List (Key × Value)} (h : ∀ e ∈ es, k < e.1) :
    lookup k es = none := by
  induction es with
  | nil => rfl
  | cons e es ih =>
    have hne : e.1 ≠ k := fun he => Key.ne_of_lt (h e List.mem_cons_self) he.symm
    simp [lookup, hne, ih fun e' he' => h e' (List.mem_cons_of_mem _ he')]

/-- A key that has a value among ordered entries is not before the first of them. -/
theorem not_lt_of_lookup {k : Key} {v : Value} {e : Key × Value} {es : List (Key × Value)}
    (h : (e :: es).Pairwise fun a b => a.1 < b.1) (hv : lookup k (e :: es) = some v) :
    ¬k < e.1 := by
  intro hlt
  have hnone : lookup k (e :: es) = none := by
    refine lookup_eq_none fun e' he' => ?_
    rcases List.mem_cons.1 he' with rfl | he'
    · exact hlt
    · exact Key.lt_trans hlt (List.rel_of_pairwise_cons h he')
  rw [hnone] at hv
  cases hv

theorem entries_ext {es ds : List (Key × Value)} (hes : es.Pairwise fun a b => a.1 < b.1)
    (hds : ds.Pairwise fun a b => a.1 < b.1) (h : ∀ k, lookup k es = lookup k ds) : es = ds := by
  induction es generalizing ds with
  | nil =>
    cases ds with
    | nil => rfl
    | cons d ds => have := h d.1; simp [lookup] at this
  | cons e es ih =>
    cases ds with
    | nil => have := h e.1; simp [lookup] at this
    | cons d ds =>
      have hkey : e.1 = d.1 := by
        refine Decidable.byContradiction fun hne => ?_
        have hfirst : lookup e.1 (d :: ds) = some e.2 := by rw [← h e.1]; simp [lookup]
        have hfirst' : lookup d.1 (e :: es) = some d.2 := by rw [h d.1]; simp [lookup]
        have hlt : d.1 < e.1 := Key.lt_of_not_lt hne (not_lt_of_lookup hds hfirst)
        exact not_lt_of_lookup hes hfirst' hlt
      obtain ⟨he, hes⟩ := List.pairwise_cons.1 hes
      obtain ⟨hd, hds⟩ := List.pairwise_cons.1 hds
      have hval : e.2 = d.2 := by
        have := h e.1
        simpa [lookup, hkey] using this
      have htail : es = ds := by
        refine ih hes hds fun k => ?_
        -- The key of the first entries has no value among the later ones.
        by_cases hk : e.1 = k
        · rw [lookup_eq_none fun e' he' => hk ▸ he e' he',
            lookup_eq_none fun e' he' => hk ▸ hkey ▸ hd e' he']
        · have := h k
          simpa [lookup, hk, hkey ▸ hk] using this
      rw [htail, Prod.ext hkey hval]

/-- Environments with the same content are equal. -/
theorem ext_get? {env env' : Env} (h : ∀ k, env.get? k = env'.get? k) : env = env' :=
  Env.ext (entries_ext env.ordered env'.ordered h)

end Env

end TreeMachine
