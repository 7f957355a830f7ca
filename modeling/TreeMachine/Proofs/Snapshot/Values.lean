import TreeMachine.Proofs.Json.Back
import TreeMachine.Snapshot.Reader
import TreeMachine.Snapshot.Writer

/-!
# Snapshots of values

What a reader makes of a snapshot that has come back is stated together with the doubles that are in
it (`Restores`): the reader gets what the snapshot was taken of when each of the doubles is one that
the writer and the reader of numbers map to itself, and it gets nothing when one of them is infinite
or NaN. Here this is shown for scalars, values and keys.

A double is written with the shortest digits that stand for it, and read by a computation in
floating point that may be off by one unit in the last place. So a double is kept or it is not
(`Json.Keeps`), and for a given one this is found out by writing and reading it. Infinities and NaN
are different: they are written as null, and null is not read as a number
(`Json.reads_float?_of_not_finite`). Which of the finite doubles are kept is left open.

Both halves of `Restores` are proved together for each part, since they have the same structure: an
object has the doubles of its fields and a list those of its items. A kind that holds one thing,
such as a value that is a scalar, is restored with what it holds (`Json.Restores.holding`), and
lists are restored item by item (`Json.Restores.items`). Ids are restored if they have 32 bits,
which is a hypothesis wherever there are any; integers of the program have 64 bits by their type.
-/

namespace TreeMachine

/-! ### Doubles -/

/-- The writer and the reader of numbers map a double to itself. -/
def Json.Keeps (x : Float) : Prop :=
  (Json.Value.ofText? (Json.Value.number (.float x)).text).bind Json.Value.float? = some x

instance (x : Float) : Decidable (Json.Keeps x) :=
  inferInstanceAs (Decidable (_ = _))

/-- Neither an infinity nor NaN: not all bits of the exponent are set. -/
def IsFinite (x : Float) : Prop :=
  (x.toBits.toNat >>> 52) % 0x800 ≠ 0x7FF

instance (x : Float) : Decidable (IsFinite x) :=
  inferInstanceAs (Decidable (_ ≠ _))

/-- The doubles of a scalar. -/
def Scalar.floats : Scalar → List Float
  | .float x => [x]
  | _ => []

/-- The doubles of a value. -/
def Value.floats : Value → List Float
  | .scalar s => s.floats
  | _ => []

/-- The ids of a value have 32 bits. -/
def Value.Fits : Value → Prop
  | .object h => h.index ≤ Word.max32
  | .function id => id.index ≤ Word.max32
  | .closure id => id.index ≤ Word.max32
  | _ => True

namespace Json

/-- A reader makes something of what has come back of a value if it has to: it gets `a` if all of
the given doubles are kept, and whenever it gets anything, all of them are finite. -/
structure Restores {α : Type} (levels : Nat) (read : Value → Option α) (v : Value)
    (floats : List Float) (a : α) : Prop where
  kept : (∀ x ∈ floats, Keeps x) → v.reads levels read = some a
  finite : ∀ a', v.reads levels read = some a' → ∀ x ∈ floats, IsFinite x

variable {α β : Type} {levels : Nat} {read : Value → Option α} {v : Value} {floats : List Float}
  {a : α}

theorem Restores.of_reads (h : v.reads levels read = some a) : Restores levels read v [] a :=
  ⟨fun _ => h, fun _ _ => nofun⟩

theorem Restores.map (h : Restores levels read v floats a) {read' : Value → Option β} {v' : Value}
    {levels' : Nat} (f : α → β)
    (hread : v'.reads levels' read' = (v.reads levels read).map f) :
    Restores levels' read' v' floats (f a) := by
  constructor
  · intro hkept
    rw [hread, h.kept hkept]
    rfl
  · intro b hb
    rw [hread] at hb
    obtain ⟨a', ha', -⟩ := Option.map_eq_some_iff.1 hb
    exact h.finite a' ha'

/-- **A list is restored** item by item, whatever an item is written as and read as. -/
theorem Restores.items {write : β → Value} {get : β → α} {doubles : β → List Float} {bs : List β}
    (h : ∀ b ∈ bs, Restores levels read (write b) (doubles b) (get b)) :
    Restores (levels + 1) (Value.listOf? read) (.array (bs.map write)) (bs.flatMap doubles)
      (bs.map get) := by
  -- Both parts are by induction on the list: `mapM` gets a value if it gets one for each item.
  constructor
  · intro hkept
    rw [Value.reads_listOf?]
    induction bs with
    | nil => rfl
    | cons b bs ih =>
      obtain ⟨hb, hbs⟩ := List.forall_mem_cons.1 h
      rw [List.flatMap_cons] at hkept
      have hfirst := hb.kept fun x hx => hkept x (List.mem_append_left _ hx)
      have hrest := ih hbs fun x hx => hkept x (List.mem_append_right _ hx)
      rw [List.map_cons, List.mapM_cons, hfirst, hrest]
      rfl
  · intro cs hcs
    rw [Value.reads_listOf?] at hcs
    induction bs generalizing cs with
    | nil => nofun
    | cons b bs ih =>
      obtain ⟨hb, hbs⟩ := List.forall_mem_cons.1 h
      rw [List.map_cons, List.mapM_cons] at hcs
      obtain ⟨c, hc, hcs⟩ := Option.bind_eq_some_iff.1 hcs
      obtain ⟨rest, hrest, -⟩ := Option.bind_eq_some_iff.1 hcs
      rw [List.flatMap_cons]
      intro x hx
      rcases List.mem_append.1 hx with hx | hx
      · exact hb.finite c hc x hx
      · exact ih hbs rest hrest x hx

/-- A list of items that are restored as they are. -/
theorem Restores.list {write : β → Value} {read : Value → Option β} {doubles : β → List Float}
    {bs : List β} (h : ∀ b ∈ bs, Restores levels read (write b) (doubles b) b) :
    Restores (levels + 1) (Value.listOf? read) (.array (bs.map write)) (bs.flatMap doubles) bs := by
  have hitems : Restores (levels + 1) (Value.listOf? read) (.array (bs.map write))
      (bs.flatMap doubles) (bs.map fun b => b) := Restores.items h
  rwa [List.map_id'] at hitems

/-- A list of items without doubles. -/
theorem restores_list {write : β → Value} {get : β → α} {bs : List β}
    (h : ∀ b ∈ bs, Restores levels read (write b) [] (get b)) :
    Restores (levels + 1) (Value.listOf? read) (.array (bs.map write)) [] (bs.map get) := by
  have hitems : Restores (levels + 1) (Value.listOf? read) (.array (bs.map write))
      (bs.flatMap fun _ => []) (bs.map get) := Restores.items h
  rwa [List.flatMap_eq_nil_iff.2 fun _ _ => rfl] at hitems

/-! ### Numbers -/

/-- A number comes back in the same way on all levels. -/
theorem back_number (levels levels' : Nat) (n : Number) :
    Value.back levels (.number n) = Value.back levels' (.number n) := by
  have hword : ∀ w t, Tree.ofWord? w = some t → t.value? levels = t.value? levels' := by
    intro w t ht
    unfold Tree.ofWord? at ht
    split at ht
    · cases ht
      rfl
    · split at ht
      · cases ht
        rfl
      · split at ht
        · cases ht
          rfl
        · obtain ⟨l, -, rfl⟩ := Option.map_eq_some_iff.1 ht
          rfl
  have hreread : ∀ t, n.reread = some t → t.value? levels = t.value? levels' := by
    intro t ht
    unfold Number.reread at ht
    split at ht
    · exact hword _ t ht
    · rename_i hnumber
      cases ht
      -- Only a double without a literal is not written as a number, and it is written as null.
      cases n with
      | int n => exact absurd rfl (hnumber _)
      | float x =>
        rw [Number.tree] at hnumber ⊢
        cases hl : Literal.ofFloat? x with
        | none => rfl
        | some l => exact absurd (by rw [hl]) (hnumber l)
  rw [Value.back, Value.back, Value.reread]
  cases hn : n.reread with
  | none => rfl
  | some t => exact hreread t hn

/-- A double that is infinite or NaN is written as null, and so it is not read again. -/
theorem reads_float?_of_not_finite {x : Float} (hx : ¬IsFinite x) :
    Value.reads levels Value.float? (.number (.float x)) = none := by
  have hspecial : (x.toBits.toNat >>> 52) % 0x800 = 0x7FF := Decidable.not_not.1 hx
  have hnone : Literal.ofFloat? x = none := by
    rw [Literal.ofFloat?, Number.Binary.ofFloat?]
    simp only [hspecial, if_true]
    rfl
  have hreread : Number.reread (.float x) = some .null := by
    rw [Number.reread, Number.tree, hnone]
  rw [Value.reads, Value.back, Value.reread, hreread]
  rfl

/-- **A double is restored** if it is kept, and lost if it is not finite. -/
theorem restores_float (levels : Nat) (x : Float) :
    Restores levels Value.float? (.number (.float x)) [x] x := by
  constructor
  · intro hkept
    have hx : Keeps x := hkept x (List.mem_singleton.2 rfl)
    rw [Keeps, Value.ofText?_eq_back] at hx
    rw [Value.reads, back_number levels maxLevels]
    exact hx
  · intro y hy z hz
    rw [List.mem_singleton.1 hz]
    intro hspecial
    rw [reads_float?_of_not_finite fun h => h hspecial] at hy
    cases hy

theorem natural?_ofNat {high n : Nat} (hn : n ≤ high) :
    Value.natural? high (.ofNat n) = some n := by
  have hrange : 0 ≤ (n : Int) ∧ (n : Int) ≤ high := by omega
  simp only [Value.ofNat, Value.natural?, Value.integer?, Option.bind_some, if_pos hrange,
    Int.toNat_natCast]

/-- **A natural number** that fits into its word is restored. -/
theorem restores_natural (levels : Nat) {high n : Nat} (hhigh : high ≤ Word.max64)
    (hn : n ≤ high) : Restores levels (Value.natural? high) (.ofNat n) [] n := by
  apply Restores.of_reads
  rw [Value.reads, Value.back_ofNat (Nat.le_trans hn hhigh)]
  exact natural?_ofNat hn

/-- **A signed integer** is restored. -/
theorem restores_int64 (levels : Nat) (n : Int64) :
    Restores levels Value.int64? (.number (.int n.toInt)) [] n := by
  have hlow : Word.minSigned ≤ n.toInt := n.le_toInt
  have hhigh : n.toInt ≤ Word.maxSigned := Int.le_of_lt_add_one n.toInt_lt
  have hmax : Word.maxSigned ≤ Word.max64 := by decide
  apply Restores.of_reads
  rw [Value.reads, Value.back_int hlow (Int.le_trans hhigh hmax)]
  simp only [Value.int64?, Value.integer?, Option.bind_some, Word.signed?, hlow, hhigh, and_self,
    if_true, Int64.ofInt_toInt]

theorem restores_string (levels : Nat) (s : String) :
    Restores levels Value.string? (.string s) [] s := by
  apply Restores.of_reads
  rw [Value.reads, Value.back_string]
  rfl

/-! ### Kinds -/

open Json.Value (reads back back_int back_object backFields back_string)

theorem back_bare (kind : String) : (bare kind).back (levels + 1) = some (bare kind) := by
  rw [bare, back_object, backFields, List.mapM_cons, back_string]
  rfl

theorem back_holding (kind key : String) (content : Value) :
    (holding kind key content).back (levels + 1) =
      (content.back levels).map fun c => holding kind key c := by
  rw [holding, back_object, backFields, List.mapM_cons, back_string, List.mapM_cons]
  cases content.back levels <;> rfl

/-- A kind that holds nothing is restored. -/
theorem Restores.bare {kind : String} (h : read (Json.bare kind) = some a) :
    Restores (levels + 1) read (Json.bare kind) [] a := by
  apply Restores.of_reads
  rw [reads, back_bare]
  exact h

/-- **A kind that holds something** is restored with what it holds. -/
theorem Restores.holding {part : Value → Option β} {content : Value} {b : β} {f : β → α}
    {kind key : String} (hcontent : Restores levels part content floats b)
    (h : ∀ c, read (Json.holding kind key c) = (part c).bind fun b => some (f b)) :
    Restores (levels + 1) read (Json.holding kind key content) floats (f b) := by
  refine hcontent.map f ?_
  rw [reads, back_holding, reads]
  cases content.back levels with
  | none => rfl
  | some c =>
    rw [Option.map_some, Option.bind_some, h, Option.map_eq_bind]
    rfl

end Json

/-! ### Scalars, values and keys -/

open Json (Restores)
open Snapshot (scalar? handle? value? key? word?)
open Json.Value (reads bool? backFields back_ofNat reads_object)

theorem Snapshot.restores_word (levels : Nat) {n : Nat} (hn : n ≤ Word.max32) :
    Restores levels word? (.ofNat n) [] n :=
  Json.restores_natural levels (by decide) hn

/-- **Scalars are restored.** -/
theorem Scalar.restores (levels : Nat) (s : Scalar) :
    Restores (levels + 1) scalar? s.snapshot s.floats s := by
  cases s with
  | bool b =>
    have hb : Restores levels bool? (.bool b) [] b := .of_reads rfl
    exact hb.holding fun _ => rfl
  | int n => exact (Json.restores_int64 levels n).holding fun _ => rfl
  | float x => exact (Json.restores_float levels x).holding fun _ => rfl
  | text s => exact (Json.restores_string levels s).holding fun _ => rfl

theorem Handle.restores (levels : Nat) {h : Handle} (hindex : h.index ≤ Word.max32) :
    Restores (levels + 1) handle? h.snapshot [] h := by
  have hgeneration : h.generation.toNat ≤ Word.max32 := Nat.le_of_lt_succ h.generation.toNat_lt
  have hwords : Word.max32 ≤ Word.max64 := by decide
  have hfs : backFields levels
      [("index", .ofNat h.index), ("generation", .ofNat h.generation.toNat)] =
      some [("index", .ofNat h.index), ("generation", .ofNat h.generation.toNat)] := by
    rw [backFields, List.mapM_cons, back_ofNat (Nat.le_trans hindex hwords), List.mapM_cons,
      back_ofNat (Nat.le_trans hgeneration hwords)]
    rfl
  have hread : handle? h.snapshot = (word? (.ofNat h.index)).bind fun index =>
      (word? (.ofNat h.generation.toNat)).bind fun generation =>
        some ⟨index, .ofNat generation⟩ := rfl
  apply Restores.of_reads
  rw [Handle.snapshot, reads_object hfs, ← Handle.snapshot, hread, word?, word?,
    Json.natural?_ofNat hindex, Json.natural?_ofNat hgeneration, Option.bind_some, Option.bind_some,
    UInt32.ofNat_toNat]

/-- **Values are restored** if their ids have 32 bits. -/
theorem Value.restores (levels : Nat) {v : Value} (hfits : v.Fits) :
    Restores (levels + 2) value? v.snapshot v.floats v := by
  cases v with
  | empty => exact .bare rfl
  | uninitialized => exact .bare rfl
  | object h => exact (Handle.restores levels hfits).holding fun _ => rfl
  | scalar s => exact (s.restores levels).holding fun _ => rfl
  | function id =>
    have hword := Snapshot.restores_word (levels + 1) hfits
    exact hword.holding (f := fun n => function ⟨n⟩) fun _ => rfl
  | selector name => exact (Json.restores_string (levels + 1) name).holding fun _ => rfl
  | closure id =>
    have hword := Snapshot.restores_word (levels + 1) hfits
    exact hword.holding (f := fun n => closure ⟨n⟩) fun _ => rfl

/-- **Keys are restored** if their ids have 32 bits. -/
theorem Key.restores (levels : Nat) {k : Key} (hindex : k.index ≤ Word.max32) :
    Restores (levels + 1) key? k.snapshot [] k := by
  have hword := Snapshot.restores_word levels hindex
  cases k with
  | expr id => exact hword.holding (f := fun n => expr ⟨n⟩) fun _ => rfl
  | stmt id => exact hword.holding (f := fun n => stmt ⟨n⟩) fun _ => rfl
  | var id => exact hword.holding (f := fun n => var ⟨n⟩) fun _ => rfl

end TreeMachine
