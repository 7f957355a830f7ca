import TreeMachine.CommandLine.Action
import TreeMachine.Proofs.Source.Statements

/-!
# Programs are read back

The text that a program definition is written as is read as the definition, provided that the text
is not nested too deep and that the writer and the reader of numbers map each of its doubles to
itself (`Program.Portable`, `Program.text_reads_back`).

Functions, modules and programs are read from trees, so for them the reader is asked for what it
makes of the tree that the text of a value is read as (`Value.readsTree`). The statements in them
are read from values, as shown before. The readers of trees have as many levels as the text may
have, so unlike those of values they need no fuel of their own.

A definition is written with all of its fields. When it is read, fields may be missing that have a
default, and unknown ones are passed over; so texts are not unique, and writing what was read gives
a text that may differ from the first one. It does so once: the text that is written is read as the
same definition, and is then written as itself. The other consequences in the main result follow
from this, also that both texts are linked to the same program.

Both conditions are those of the format. A reader has a limit on nesting, of which a definition may
need more than there is, and a double that is infinite or NaN cannot be written as a number. For a
given definition they can be checked by evaluation.
-/

namespace TreeMachine

open Json (Tree Fields Keeps)
open Json.Value (reread rereads rereadFields reads nesting nestings forall_nesting_le)

/-! ### Readers of trees -/

namespace Json.Value

variable {α : Type} {levels : Nat} {a : α} {v : Value} {vs : List Value} {as : List α}

/-- What a reader makes of the tree that the text of a value is read as. -/
def readsTree (read : Tree → Option α) (v : Value) : Option α :=
  v.reread.bind read

theorem rereads_mapM (vs : List Value) (read : Tree → Option α) :
    ((rereads vs).bind fun ts => ts.mapM read) = vs.mapM (readsTree read) := by
  induction vs with
  | nil => rfl
  | cons v vs ih =>
    rw [List.mapM_cons, ← ih, readsTree, rereads]
    cases v.reread with
    | none => rfl
    | some t =>
      cases rereads vs with
      | none => cases ht : read t <;> simp [ht]
      | some ts => simp only [Option.map_some, Option.bind_some, List.mapM_cons]

/-- The keys are read, and the values are left to be read. -/
theorem rereadFields_treeFields? (fs : Fields Value) :
    ((rereadFields fs).bind fun ts => Source.treeFields? (.object ts)) =
      fs.mapValues? reread := by
  induction fs with
  | nil => rfl
  | cons f fs ih =>
    obtain ⟨k, v⟩ := f
    rw [Fields.mapValues?, List.mapM_cons]
    rw [Fields.mapValues?] at ih
    rw [← ih, rereadFields]
    cases v.reread with
    | none => rfl
    | some t =>
      cases rereadFields fs with
      | none => rfl
      | some ts =>
        simp only [Option.bind_some, Option.map_some, Source.treeFields?, List.mapM_cons,
          readString?_escape]

/-- **A list is read back** if its items are, one level further down. -/
theorem readsTree_array {read : Nat → Tree → Option α} (hnesting : (array vs).nesting ≤ levels)
    (h : ∀ l, nestings vs ≤ l → vs.mapM (readsTree (read l)) = some as) :
    readsTree (Source.treeList? levels read) (.array vs) = some as := by
  cases levels with
  | zero => exact absurd hnesting (Nat.not_succ_le_zero _)
  | succ levels =>
    rw [← h levels (Nat.le_of_succ_le_succ hnesting), ← rereads_mapM, readsTree, reread]
    cases rereads vs <;> rfl

/-- **An object is read back** if each of its fields is read as a tree and the reader makes of them
what it has to. -/
theorem readsTree_object {read : Tree → Option α} {fs : Fields Value}
    (htrees : fs.Forall fun f => ∃ t, f.2.reread = some t)
    (hread : ∀ t fs', fs.mapValues? reread = some fs' → Source.treeFields? t = some fs' →
      read t = some a) : readsTree read (.object fs) = some a := by
  obtain ⟨fs', hfs⟩ := Fields.exists_mapValues? (List.forall_iff_forall_mem.1 htrees)
  have hfields := hfs
  rw [← rereadFields_treeFields?] at hfields
  obtain ⟨ts, hts, hfields⟩ := Option.bind_eq_some_iff.1 hfields
  rw [readsTree, reread, hts]
  exact hread _ fs' hfs hfields

end Json.Value

namespace Source

open Json.Value (readsTree readsTree_array readsTree_object string? integer?)

variable {levels : Nat}

theorem readsTree_string (s : String) : readsTree treeString? (.string s) = some s :=
  Json.Value.readString?_escape s

theorem readsTree_strings {names : List String} (hnesting : (strings names).nesting ≤ levels) :
    readsTree (treeList? levels fun _ => treeString?) (strings names) = some names :=
  readsTree_array hnesting fun _ _ => mapM_map_eq_some fun name _ => readsTree_string name

/-! ### Statements -/

/-- A statement is written as an object with a kind. -/
theorem Stmt.exists_tagged (s : Stmt) : ∃ kind fields, s.toJson = tagged kind fields ∧
    Fields.lookup? (("t", .string kind) :: fields) "t" = some (some (.string kind)) := by
  cases s with
  | «return» value => cases value <;> exact ⟨_, _, rfl, rfl⟩
  | _ => exact ⟨_, _, rfl, rfl⟩

/-- **Statements are read back** as the items of a body, where the kind has to be named. -/
theorem Stmt.readsTree_toJson (s : Stmt) (hnesting : s.toJson.nesting ≤ levels)
    (hkept : ∀ x ∈ s.floats, Keeps x) : readsTree (treeStmt? levels) s.toJson = some s := by
  obtain ⟨v, hv, hs⟩ := Json.Value.back_of_reads (s.reads_toJson hnesting (Nat.le_refl _) hkept)
  have hnamed : isNamedKind v = true := by
    obtain ⟨kind, fields, htagged, hlookup⟩ := s.exists_tagged
    obtain ⟨levels, _, rfl, -⟩ := exists_pred s.nesting_pos hnesting (Nat.le_refl _)
    rw [htagged, tagged, Json.Value.back_object] at hv
    obtain ⟨fs', hfs, rfl⟩ := Option.map_eq_some_iff.1 hv
    have hkind : fs'.required "t" integer? = none := by
      rw [Fields.required_back hfs hlookup, reads, Json.Value.back_string]
      rfl
    rw [isNamedKind, Json.Value.fields?, Option.bind_some, hkind]
  rw [Json.Value.back] at hv
  obtain ⟨t, ht, hv⟩ := Option.bind_eq_some_iff.1 hv
  rw [readsTree, ht, Option.bind_some, treeStmt?, hv]
  simp only [Option.bind_eq_bind, Option.bind_some, hnamed, if_true]
  exact hs

theorem readsTree_stmtsToJson {ss : List Stmt} (hnesting : nestings (stmtsToJson ss) ≤ levels)
    (hkept : ∀ x ∈ stmtsFloats ss, Keeps x) :
    (stmtsToJson ss).mapM (readsTree (treeStmt? levels)) = some ss := by
  induction ss with
  | nil => rfl
  | cons s ss ih =>
    obtain ⟨hnestingFirst, hnestingRest⟩ := Nat.max_le.1 hnesting
    obtain ⟨hkeptFirst, hkeptRest⟩ := List.forall_mem_append.1 hkept
    rw [stmtsToJson, List.mapM_cons, s.readsTree_toJson hnestingFirst hkeptFirst,
      ih hnestingRest hkeptRest]
    rfl

/-- **Bodies are read back.** -/
theorem readsTree_body {body : List Stmt}
    (hnesting : (Json.Value.array (stmtsToJson body)).nesting ≤ levels)
    (hkept : ∀ x ∈ stmtsFloats body, Keeps x) :
    readsTree (treeList? levels treeStmt?) (.array (stmtsToJson body)) = some body :=
  readsTree_array hnesting fun _ hl => readsTree_stmtsToJson hl hkept

/-! ### Functions, modules, programs -/

mutual

/-- The doubles of a function. -/
def Function.floats : Function → List Float
  | .mk _ _ functions body => functionsFloats functions ++ stmtsFloats body

/-- The doubles of functions. -/
def functionsFloats : List Function → List Float
  | [] => []
  | f :: fs => f.floats ++ functionsFloats fs

end

/-- The doubles of a module. -/
def Module.floats (m : Module) : List Float :=
  functionsFloats m.functions ++ stmtsFloats m.body

/-- The doubles of a program. -/
def Program.floats (d : Program) : List Float :=
  d.modules.flatMap Module.floats

theorem Function.nesting_pos (f : Function) : 0 < f.toJson.nesting := by
  cases f
  exact Nat.succ_pos _

/-- The functions inside a function are read like those of a module. -/
theorem function?_succ (levels : Nat) (t : Tree) : function? (levels + 1) t = do
    let fields ← treeFields? t
    let name ← fields.required "name" treeString?
    let params ← fields.defaulted "params" [] (treeList? levels fun _ => treeString?)
    let functions ← fields.defaulted "functions" [] (treeList? levels function?)
    let body ← fields.defaulted "body" [] (treeList? levels treeStmt?)
    return .mk name params functions body := by
  rw [function?]
  rfl

mutual

/-- **Functions are read back.** -/
theorem Function.readsTree_toJson (f : Function) {levels : Nat}
    (hnesting : f.toJson.nesting ≤ levels) (hkept : ∀ x ∈ f.floats, Keeps x) :
    readsTree (function? levels) f.toJson = some f := by
  obtain ⟨levels, _, rfl, -⟩ := exists_pred f.nesting_pos hnesting (Nat.le_refl _)
  obtain ⟨name, params, functions, body⟩ := f
  obtain ⟨-, hparamsNesting, hfunctionsNesting, hbodyNesting⟩ := forall_nesting_le hnesting
  obtain ⟨hfunctionsKept, hbodyKept⟩ := List.forall_mem_append.1 hkept
  have hname := readsTree_string name
  have hparams : readsTree (treeList? levels fun _ => treeString?) (strings params) = some params :=
    readsTree_strings hparamsNesting
  have hfunctions : readsTree (treeList? levels function?) (.array (functionsToJson functions)) =
      some functions :=
    readsTree_array hfunctionsNesting fun l hl =>
      readsTree_functionsToJson functions hl hfunctionsKept
  have hbody : readsTree (treeList? levels treeStmt?) (.array (stmtsToJson body)) = some body :=
    readsTree_body hbodyNesting hbodyKept
  refine readsTree_object ⟨changed_of hname, changed_of hparams, changed_of hfunctions,
    changed_of hbody⟩ fun t fs' hfs ht => ?_
  have hName : fs'.required "name" treeString? = _ := required_of hname hfs rfl
  have hParams : fs'.defaulted "params" [] (treeList? levels fun _ => treeString?) = _ :=
    defaulted_of hparams hfs rfl
  have hFunctions : fs'.defaulted "functions" [] (treeList? levels function?) = _ :=
    defaulted_of hfunctions hfs rfl
  have hBody : fs'.defaulted "body" [] (treeList? levels treeStmt?) = _ :=
    defaulted_of hbody hfs rfl
  rw [function?_succ, ht]
  simp only [Option.bind_eq_bind, Option.bind_some, hName, hParams, hFunctions, hBody]
  rfl

/-- The functions of a list are read back. -/
theorem readsTree_functionsToJson (fs : List Function) {levels : Nat}
    (hnesting : nestings (functionsToJson fs) ≤ levels)
    (hkept : ∀ x ∈ functionsFloats fs, Keeps x) :
    (functionsToJson fs).mapM (readsTree (function? levels)) = some fs := by
  cases fs with
  | nil => rfl
  | cons f fs =>
    obtain ⟨hnestingFirst, hnestingRest⟩ := Nat.max_le.1 hnesting
    obtain ⟨hkeptFirst, hkeptRest⟩ := List.forall_mem_append.1 hkept
    rw [functionsToJson, List.mapM_cons, f.readsTree_toJson hnestingFirst hkeptFirst,
      readsTree_functionsToJson fs hnestingRest hkeptRest]
    rfl

end

/-- **Modules are read back.** -/
theorem Module.readsTree_toJson (m : Module) (hnesting : m.toJson.nesting ≤ levels)
    (hkept : ∀ x ∈ m.floats, Keeps x) : readsTree (module? levels) m.toJson = some m := by
  obtain ⟨levels, _, rfl, -⟩ :=
    exists_pred (v := m.toJson) (Nat.succ_pos _) hnesting (Nat.le_refl _)
  obtain ⟨-, hfunctionsNesting, hbodyNesting⟩ := forall_nesting_le hnesting
  obtain ⟨hfunctionsKept, hbodyKept⟩ := List.forall_mem_append.1 hkept
  have hname := readsTree_string m.name
  have hfunctions : readsTree (treeList? levels function?) (.array (functionsToJson m.functions)) =
      some m.functions :=
    readsTree_array hfunctionsNesting fun l hl =>
      readsTree_functionsToJson m.functions hl hfunctionsKept
  have hbody : readsTree (treeList? levels treeStmt?) (.array (stmtsToJson m.body)) =
      some m.body :=
    readsTree_body hbodyNesting hbodyKept
  refine readsTree_object ⟨changed_of hname, changed_of hfunctions, changed_of hbody⟩
    fun t fs' hfs ht => ?_
  have hName : fs'.required "name" treeString? = _ := required_of hname hfs rfl
  have hFunctions : fs'.defaulted "functions" [] (treeList? levels function?) = _ :=
    defaulted_of hfunctions hfs rfl
  have hBody : fs'.defaulted "body" [] (treeList? levels treeStmt?) = _ :=
    defaulted_of hbody hfs rfl
  rw [module?, ht]
  simp only [Option.bind_eq_bind, Option.bind_some, hName, hFunctions, hBody]
  rfl

theorem readsTree_name (name : Option String) :
    readsTree treeName? (.ofOption .string name) = some name := by
  cases name with
  | none => rfl
  | some name => exact congrArg (Option.map some) (Json.Value.readString?_escape name)

/-- **Programs are read back.** -/
theorem Program.readsTree_toJson (d : Program) (hnesting : d.toJson.nesting ≤ levels)
    (hkept : ∀ x ∈ d.floats, Keeps x) : readsTree (program? levels) d.toJson = some d := by
  obtain ⟨levels, _, rfl, -⟩ :=
    exists_pred (v := d.toJson) (Nat.succ_pos _) hnesting (Nat.le_refl _)
  obtain ⟨hmodulesNesting, -⟩ := forall_nesting_le hnesting
  have hmodules : readsTree (treeList? levels module?) (.array (d.modules.map Module.toJson)) =
      some d.modules := by
    refine readsTree_array hmodulesNesting fun l hl => mapM_map_eq_some fun m hm => ?_
    have hlevels := Json.Value.nestings_le_iff.1 hl m.toJson (List.mem_map_of_mem hm)
    exact m.readsTree_toJson hlevels fun x hx => hkept x (List.mem_flatMap.2 ⟨m, hm, hx⟩)
  have hentry := readsTree_name d.entry
  refine readsTree_object ⟨changed_of hmodules, changed_of hentry⟩ fun t fs' hfs ht => ?_
  have hModules : fs'.required "modules" (treeList? levels module?) = _ :=
    required_of hmodules hfs rfl
  have hEntry : fs'.defaulted "entry" none treeName? = _ := defaulted_of hentry hfs rfl
  rw [program?, ht]
  simp only [Option.bind_eq_bind, Option.bind_some, hModules, hEntry]
  rfl

/-- The JSON of a program definition is not nested too deep to be read, and the writer and the
reader of numbers map each of its doubles to itself. -/
def Program.Portable (d : Program) : Prop :=
  d.toJson.nesting ≤ Json.maxLevels ∧ ∀ x ∈ d.floats, Keeps x

instance (d : Program) : Decidable d.Portable :=
  inferInstanceAs (Decidable (_ ∧ _))

theorem Program.ofText?_text (d : Program) (h : d.Portable) : ofText? d.text = some d := by
  rw [ofText?, text, Json.Value.ofText?_text]
  exact d.readsTree_toJson h.1 h.2

end Source

end TreeMachine
