import TreeMachine.Proofs.Snapshot.Values
import TreeMachine.Source.Reader
import TreeMachine.Source.Writer

/-!
# Statements are read back

An expression or a statement that is written as a value comes back from the text of that value and
is read as what it was, provided that the value is not nested deeper than there are levels left and
that the writer and the reader of numbers map each of its doubles to itself (`Expr.reads_toJson`,
`Stmt.reads_toJson`). This is an induction on expressions, statements and arms at once. The readers
have fuel of their own, which one object uses up by one; that there is at least as much of it as
there are levels is all that matters.

A node is an object with a field for its kind and one for each part. The reader takes the kind first
and leaves the fields to the reader of the kind, which looks them up by name. So a case of the
induction has three steps: the fields come back, with what comes back of the parts; the kind is
found among them (`tagged?_back`); and each part is read from its field, by the induction
hypothesis. The order of fields does not matter to this, and neither do fields that the reader does
not look at.

Levels are counted down with each array and object, and the nesting of a value is what it needs of
them (`Json.Value.nesting`). Since an object uses up a level and a piece of fuel alike, the two are
compared once, at the root.

Texts that were not written from a definition are left out here.
-/

namespace TreeMachine

open Json (Keeps Fields)
open Json.Value (reads back backFields reads_object back_string reads_listOf? exists_backFields
  back_of_reads)

/-! ### Nesting -/

namespace Json.Value

mutual

/-- How deeply arrays and objects are nested in a value. -/
def nesting : Value → Nat
  | .array vs => nestings vs + 1
  | .object fs => fieldNestings fs + 1
  | _ => 0

/-- The deepest nesting among items. -/
def nestings : List Value → Nat
  | [] => 0
  | v :: vs => max v.nesting (nestings vs)

/-- The deepest nesting among the values of fields. -/
def fieldNestings : Fields Value → Nat
  | [] => 0
  | (_, v) :: fs => max v.nesting (fieldNestings fs)

end

@[simp] theorem nestings_nil : nestings [] = 0 := rfl

@[simp] theorem nestings_cons (v : Value) (vs : List Value) :
    nestings (v :: vs) = max v.nesting (nestings vs) := rfl

theorem nestings_le_iff {vs : List Value} {levels : Nat} :
    nestings vs ≤ levels ↔ ∀ v ∈ vs, v.nesting ≤ levels := by
  induction vs with
  | nil => simp
  | cons v vs ih => rw [nestings_cons, Nat.max_le, ih, List.forall_mem_cons]

/-- The values of fields are nested one level less than their object. -/
theorem forall_nesting_le {fs : Fields Value} {levels : Nat}
    (h : (object fs).nesting ≤ levels + 1) : fs.Forall fun f => f.2.nesting ≤ levels := by
  replace h := Nat.le_of_succ_le_succ h
  induction fs with
  | nil => trivial
  | cons f fs ih =>
    obtain ⟨hfirst, hrest⟩ := Nat.max_le.1 h
    exact (List.forall_cons _ f fs).2 ⟨hfirst, ih hrest⟩

variable {α : Type} {levels : Nat} {read : Value → Option α} {vs : List Value} {as : List α}

/-- **An array is read back** if its items are, one level further down. What bounds the levels that
were left bounds those that are left there. -/
theorem reads_array {bound : Nat} (hnesting : (array vs).nesting ≤ levels) (hbound : levels ≤ bound)
    (h : ∀ l, nestings vs ≤ l → l ≤ bound → vs.mapM (reads l read) = some as) :
    reads levels (listOf? read) (.array vs) = some as := by
  cases levels with
  | zero => exact absurd hnesting (Nat.not_succ_le_zero _)
  | succ levels =>
    rw [reads_listOf?]
    exact h levels (Nat.le_of_succ_le_succ hnesting) (Nat.le_of_succ_le hbound)

end Json.Value

namespace Source

/-! ### Doubles -/

mutual

/-- The doubles of an expression. -/
def Expr.floats : Expr → List Float
  | .scalar s => s.floats
  | .var _ | .declare _ | .name _ | .function _ => []
  | .assign _ value => value.floats
  | .call callee args => callee.floats ++ exprsFloats args
  | .choose cond thenExpr elseExpr => cond.floats ++ thenExpr.floats ++ elseExpr.floats
  | .closure _ body => stmtsFloats body

/-- The doubles of expressions. -/
def exprsFloats : List Expr → List Float
  | [] => []
  | e :: es => e.floats ++ exprsFloats es

/-- The doubles of a statement. -/
def Stmt.floats : Stmt → List Float
  | .expr e => e.floats
  | .block body => stmtsFloats body
  | .loop cond body _ => cond.floats ++ stmtsFloats body
  | .forall _ iterators body => exprsFloats iterators ++ stmtsFloats body
  | .branch cond thenBody elseBody => cond.floats ++ stmtsFloats thenBody ++ stmtsFloats elseBody
  | .select selector arms => selector.floats ++ armsFloats arms
  | .return none => []
  | .return (some value) => value.floats
  | .label _ | .goto _ => []

/-- The doubles of statements. -/
def stmtsFloats : List Stmt → List Float
  | [] => []
  | s :: ss => s.floats ++ stmtsFloats ss

/-- The doubles of an arm. -/
def Arm.floats : Arm → List Float
  | .mk cases body => exprsFloats cases ++ stmtsFloats body

/-- The doubles of arms. -/
def armsFloats : List Arm → List Float
  | [] => []
  | a :: as => a.floats ++ armsFloats as

end

/-! ### Objects of a kind -/

open Json.Value (nesting nestings forall_nesting_le string? bool? listOf? reads_array)

section Fields

variable {α β : Type} {g : Json.Value → Option β} {read : β → Option α} {a : α}
  {v : Json.Value} {fields : Fields Json.Value} {fs' : Fields β} {key : String}

/-- A value of whose changed form a reader makes something can be changed. -/
theorem changed_of (h : (g v).bind read = some a) : ∃ v', g v = some v' := by
  obtain ⟨v', hv, -⟩ := Option.bind_eq_some_iff.1 h
  exact ⟨v', hv⟩

/-- A required field whose changed value is read. -/
theorem required_of (h : (g v).bind read = some a) (hfs : fields.mapValues? g = some fs')
    (hlookup : fields.lookup? key = some (some v)) : fs'.required key read = some a := by
  rw [Fields.required_mapValues? hfs hlookup]
  exact h

/-- A field that has a default and whose changed value is read. -/
theorem defaulted_of {absent : α} (h : (g v).bind read = some a)
    (hfs : fields.mapValues? g = some fs') (hlookup : fields.lookup? key = some (some v)) :
    fs'.defaulted key absent read = some a := by
  rw [Fields.defaulted_mapValues? hfs hlookup]
  exact h

end Fields

section Objects

variable {α : Type} {levels : Nat} {read : Json.Value → Option α} {a : α} {kind : String}
  {fields fs' : Fields Json.Value}

/-- **An object is read back** if each of its fields comes back and the reader makes of them what it
has to. -/
theorem reads_fields (hback : fields.Forall fun f => ∃ v', f.2.back levels = some v')
    (hread : ∀ fs', backFields levels fields = some fs' → read (.object fs') = some a) :
    reads (levels + 1) read (.object fields) = some a := by
  obtain ⟨fs', hfs⟩ := exists_backFields (List.forall_iff_forall_mem.1 hback)
  rw [reads_object hfs]
  exact hread fs' hfs

/-- The kind is read, and the fields are left for the reader of the kind. -/
theorem tagged?_back (kinds : List String) (hfs : backFields levels fields = some fs')
    (hlookup : fields.lookup? "t" = some (some (.string kind))) :
    tagged? kinds (.object fs') = some (kind, fs') := by
  have hkind : fs'.required "t" (kind? kinds) = some kind := by
    rw [Fields.required_back hfs hlookup, reads, back_string]
    rfl
  rw [tagged?, Json.Value.fields?]
  simp only [Option.bind_eq_bind, Option.bind_some, hkind]
  rfl

end Objects

variable {levels fuel : Nat}

/-- An object takes a level of the nesting, and a piece of fuel. -/
theorem exists_pred {v : Json.Value} (hpos : 0 < v.nesting) (hnesting : v.nesting ≤ levels)
    (hfuel : levels ≤ fuel) : ∃ l f, levels = l + 1 ∧ fuel = f + 1 ∧ l ≤ f :=
  ⟨levels - 1, fuel - 1, by omega, by omega, by omega⟩

/-! ### Constants and strings -/

/-- A list of parts is read back part by part. -/
theorem mapM_map_eq_some {α β : Type} {write : β → α} {read : α → Option β} {bs : List β}
    (h : ∀ b ∈ bs, read (write b) = some b) : (bs.map write).mapM read = some bs := by
  induction bs with
  | nil => rfl
  | cons b bs ih =>
    obtain ⟨hb, hbs⟩ := List.forall_mem_cons.1 h
    rw [List.map_cons, List.mapM_cons, hb, ih hbs]
    rfl

/-- Strings are read back. -/
theorem reads_strings {names : List String} (hnesting : (strings names).nesting ≤ levels) :
    reads levels strings? (strings names) = some names :=
  reads_array hnesting (Nat.le_refl _) fun l _ _ =>
    mapM_map_eq_some fun name _ => (Json.restores_string l name).kept nofun

/-- **Constants** are read back. -/
theorem reads_scalarToJson (s : Scalar) (hkept : ∀ x ∈ s.floats, Keeps x) :
    reads (levels + 1) (expr? (fuel + 1)) (scalarToJson s) = some (.scalar s) := by
  cases s with
  | bool b =>
    have hb : reads levels bool? (.bool b) = some b := rfl
    refine reads_fields ⟨⟨_, back_string _⟩, changed_of hb⟩ fun fs' hfs => ?_
    have hB : fs'.required "v" bool? = _ := required_of hb hfs rfl
    rw [expr?, tagged?_back exprKinds hfs rfl]
    simp only [Option.bind_eq_bind, Option.bind_some, hB]
    rfl
  | int n =>
    have hn := (Json.restores_int64 levels n).kept nofun
    refine reads_fields ⟨⟨_, back_string _⟩, changed_of hn⟩ fun fs' hfs => ?_
    have hN : fs'.required "v" Json.Value.int64? = _ := required_of hn hfs rfl
    rw [expr?, tagged?_back exprKinds hfs rfl]
    simp only [Option.bind_eq_bind, Option.bind_some, hN]
    rfl
  | float x =>
    have hx := (Json.restores_float levels x).kept hkept
    refine reads_fields ⟨⟨_, back_string _⟩, changed_of hx⟩ fun fs' hfs => ?_
    have hX : fs'.required "v" Json.Value.float? = _ := required_of hx hfs rfl
    rw [expr?, tagged?_back exprKinds hfs rfl]
    simp only [Option.bind_eq_bind, Option.bind_some, hX]
    rfl
  | text s =>
    have hs := (Json.restores_string levels s).kept nofun
    refine reads_fields ⟨⟨_, back_string _⟩, changed_of hs⟩ fun fs' hfs => ?_
    have hS : fs'.required "v" string? = _ := required_of hs hfs rfl
    rw [expr?, tagged?_back exprKinds hfs rfl]
    simp only [Option.bind_eq_bind, Option.bind_some, hS]
    rfl

/-- An object that has a kind and a name is read back, by a reader that reads the name. -/
theorem reads_named {α : Type} {read : Json.Value → Option α} {kind key name : String} {a : α}
    (hlookup : Fields.lookup? [("t", Json.Value.string kind), (key, .string name)] key =
      some (some (.string name)))
    (h : ∀ fs', backFields levels [("t", .string kind), (key, .string name)] = some fs' →
      fs'.required key string? = some name → read (.object fs') = some a) :
    reads (levels + 1) read (tagged kind [(key, .string name)]) = some a := by
  refine reads_fields ⟨⟨_, back_string _⟩, ⟨_, back_string _⟩⟩ fun fs' hfs => ?_
  exact h fs' hfs (required_of ((Json.restores_string levels name).kept nofun) hfs hlookup)

/-! ### Expressions, statements and arms -/

theorem Expr.nesting_pos (e : Expr) : 0 < e.toJson.nesting := by
  cases e with
  | scalar s => cases s <;> exact Nat.succ_pos _
  | _ => exact Nat.succ_pos _

theorem Stmt.nesting_pos (s : Stmt) : 0 < s.toJson.nesting := by
  cases s with
  | «return» value => cases value <;> exact Nat.succ_pos _
  | _ => exact Nat.succ_pos _

theorem Arm.nesting_pos (a : Arm) : 0 < a.toJson.nesting := by
  cases a
  exact Nat.succ_pos _

/-- An expression that has come back is not null. -/
theorem reads_nullable {α : Type} {read : Json.Value → Option α} {v : Json.Value} {a : α}
    (h : reads levels read v = some a) (hnull : read .null = none) :
    reads levels (Json.Value.nullable? read) v = some (some a) := by
  obtain ⟨v', hv, ha⟩ := back_of_reads h
  rw [reads, hv, Option.bind_some]
  cases v' with
  | null =>
    rw [hnull] at ha
    cases ha
  | _ => exact congrArg (Option.map some) ha

mutual

/-- **Expressions are read back.** -/
theorem Expr.reads_toJson (e : Expr) {levels fuel : Nat} (hnesting : e.toJson.nesting ≤ levels)
    (hfuel : levels ≤ fuel) (hkept : ∀ x ∈ e.floats, Keeps x) :
    reads levels (expr? fuel) e.toJson = some e := by
  obtain ⟨levels, fuel, rfl, rfl, hbelow⟩ := exists_pred e.nesting_pos hnesting hfuel
  cases e with
  | scalar s => exact reads_scalarToJson s hkept
  | var name | declare name | name name | function name =>
    refine reads_named rfl fun fs' hfs hname => ?_
    rw [expr?, tagged?_back exprKinds hfs rfl]
    simp only [Option.bind_eq_bind, Option.bind_some, hname]
    rfl
  | assign name value =>
    obtain ⟨-, -, hvalueNesting⟩ := forall_nesting_le hnesting
    have hname := (Json.restores_string levels name).kept nofun
    have hvalue : reads levels (expr? fuel) value.toJson = some value :=
      value.reads_toJson hvalueNesting hbelow hkept
    refine reads_fields ⟨⟨_, back_string _⟩, changed_of hname, changed_of hvalue⟩ fun fs' hfs => ?_
    have hName : fs'.required "name" string? = _ := required_of hname hfs rfl
    have hValue : fs'.required "value" (expr? fuel) = _ := required_of hvalue hfs rfl
    rw [expr?, tagged?_back exprKinds hfs rfl]
    simp only [Option.bind_eq_bind, Option.bind_some, hName, hValue]
    rfl
  | call callee args =>
    obtain ⟨hcalleeKept, hargsKept⟩ := List.forall_mem_append.1 hkept
    obtain ⟨-, hcalleeNesting, hargsNesting⟩ := forall_nesting_le hnesting
    have hcallee : reads levels (expr? fuel) callee.toJson = some callee :=
      callee.reads_toJson hcalleeNesting hbelow hcalleeKept
    have hargs : reads levels (listOf? (expr? fuel)) (.array (exprsToJson args)) = some args :=
      reads_array hargsNesting hbelow fun l hl hle => reads_exprsToJson args hl hle hargsKept
    refine reads_fields ⟨⟨_, back_string _⟩, changed_of hcallee, changed_of hargs⟩ fun fs' hfs => ?_
    have hCallee : fs'.required "callee" (expr? fuel) = _ := required_of hcallee hfs rfl
    have hArgs : fs'.defaulted "args" [] (listOf? (expr? fuel)) = _ := defaulted_of hargs hfs rfl
    rw [expr?, tagged?_back exprKinds hfs rfl]
    simp only [Option.bind_eq_bind, Option.bind_some, hCallee, hArgs]
    rfl
  | choose cond thenExpr elseExpr =>
    obtain ⟨hfirstKept, helseKept⟩ := List.forall_mem_append.1 hkept
    obtain ⟨hcondKept, hthenKept⟩ := List.forall_mem_append.1 hfirstKept
    obtain ⟨-, hcondNesting, hthenNesting, helseNesting⟩ := forall_nesting_le hnesting
    have hcond : reads levels (expr? fuel) cond.toJson = some cond :=
      cond.reads_toJson hcondNesting hbelow hcondKept
    have hthen : reads levels (expr? fuel) thenExpr.toJson = some thenExpr :=
      thenExpr.reads_toJson hthenNesting hbelow hthenKept
    have helse : reads levels (expr? fuel) elseExpr.toJson = some elseExpr :=
      elseExpr.reads_toJson helseNesting hbelow helseKept
    refine reads_fields ⟨⟨_, back_string _⟩, changed_of hcond, changed_of hthen, changed_of helse⟩
      fun fs' hfs => ?_
    have hCond : fs'.required "cond" (expr? fuel) = _ := required_of hcond hfs rfl
    have hThen : fs'.required "then_e" (expr? fuel) = _ := required_of hthen hfs rfl
    have hElse : fs'.required "else_e" (expr? fuel) = _ := required_of helse hfs rfl
    rw [expr?, tagged?_back exprKinds hfs rfl]
    simp only [Option.bind_eq_bind, Option.bind_some, hCond, hThen, hElse]
    rfl
  | closure params body =>
    obtain ⟨-, hparamsNesting, hbodyNesting⟩ := forall_nesting_le hnesting
    have hparams : reads levels strings? (strings params) = some params :=
      reads_strings hparamsNesting
    have hbody : reads levels (listOf? (stmt? fuel)) (.array (stmtsToJson body)) = some body :=
      reads_array hbodyNesting hbelow fun l hl hle => reads_stmtsToJson body hl hle hkept
    refine reads_fields ⟨⟨_, back_string _⟩, changed_of hparams, changed_of hbody⟩ fun fs' hfs => ?_
    have hParams : fs'.defaulted "params" [] strings? = _ := defaulted_of hparams hfs rfl
    have hBody : fs'.defaulted "body" [] (listOf? (stmt? fuel)) = _ := defaulted_of hbody hfs rfl
    rw [expr?, tagged?_back exprKinds hfs rfl]
    simp only [Option.bind_eq_bind, Option.bind_some, hParams, hBody]
    rfl

/-- The expressions of a list are read back. -/
theorem reads_exprsToJson (es : List Expr) {levels fuel : Nat}
    (hnesting : nestings (exprsToJson es) ≤ levels) (hfuel : levels ≤ fuel)
    (hkept : ∀ x ∈ exprsFloats es, Keeps x) :
    (exprsToJson es).mapM (reads levels (expr? fuel)) = some es := by
  cases es with
  | nil => rfl
  | cons e es =>
    obtain ⟨hnestingFirst, hnestingRest⟩ := Nat.max_le.1 hnesting
    obtain ⟨hkeptFirst, hkeptRest⟩ := List.forall_mem_append.1 hkept
    have hfirst := e.reads_toJson hnestingFirst hfuel hkeptFirst
    have hrest := reads_exprsToJson es hnestingRest hfuel hkeptRest
    rw [exprsToJson, List.mapM_cons, hfirst, hrest]
    rfl

/-- **Statements are read back.** -/
theorem Stmt.reads_toJson (s : Stmt) {levels fuel : Nat} (hnesting : s.toJson.nesting ≤ levels)
    (hfuel : levels ≤ fuel) (hkept : ∀ x ∈ s.floats, Keeps x) :
    reads levels (stmt? fuel) s.toJson = some s := by
  obtain ⟨levels, fuel, rfl, rfl, hbelow⟩ := exists_pred s.nesting_pos hnesting hfuel
  cases s with
  | expr e =>
    obtain ⟨-, heNesting⟩ := forall_nesting_le hnesting
    have he : reads levels (expr? fuel) e.toJson = some e :=
      e.reads_toJson heNesting hbelow hkept
    refine reads_fields ⟨⟨_, back_string _⟩, changed_of he⟩ fun fs' hfs => ?_
    have hE : fs'.required "expr" (expr? fuel) = _ := required_of he hfs rfl
    rw [stmt?, tagged?_back stmtKinds hfs rfl]
    simp only [Option.bind_eq_bind, Option.bind_some, hE]
    rfl
  | block body =>
    obtain ⟨-, hbodyNesting⟩ := forall_nesting_le hnesting
    have hbody : reads levels (listOf? (stmt? fuel)) (.array (stmtsToJson body)) = some body :=
      reads_array hbodyNesting hbelow fun l hl hle => reads_stmtsToJson body hl hle hkept
    refine reads_fields ⟨⟨_, back_string _⟩, changed_of hbody⟩ fun fs' hfs => ?_
    have hBody : fs'.required "body" (listOf? (stmt? fuel)) = _ := required_of hbody hfs rfl
    rw [stmt?, tagged?_back stmtKinds hfs rfl]
    simp only [Option.bind_eq_bind, Option.bind_some, hBody]
    rfl
  | loop cond body testLast =>
    obtain ⟨hcondKept, hbodyKept⟩ := List.forall_mem_append.1 hkept
    obtain ⟨-, hcondNesting, hbodyNesting, -⟩ := forall_nesting_le hnesting
    have hcond : reads levels (expr? fuel) cond.toJson = some cond :=
      cond.reads_toJson hcondNesting hbelow hcondKept
    have hbody : reads levels (listOf? (stmt? fuel)) (.array (stmtsToJson body)) = some body :=
      reads_array hbodyNesting hbelow fun l hl hle => reads_stmtsToJson body hl hle hbodyKept
    have hlast : reads levels bool? (.bool testLast) = some testLast := rfl
    refine reads_fields ⟨⟨_, back_string _⟩, changed_of hcond, changed_of hbody, changed_of hlast⟩
      fun fs' hfs => ?_
    have hCond : fs'.required "cond" (expr? fuel) = _ := required_of hcond hfs rfl
    have hBody : fs'.defaulted "body" [] (listOf? (stmt? fuel)) = _ := defaulted_of hbody hfs rfl
    have hLast : fs'.defaulted "do_while" false bool? = _ := defaulted_of hlast hfs rfl
    rw [stmt?, tagged?_back stmtKinds hfs rfl]
    simp only [Option.bind_eq_bind, Option.bind_some, hCond, hBody, hLast]
    rfl
  | «forall» indices iterators body =>
    obtain ⟨hiteratorsKept, hbodyKept⟩ := List.forall_mem_append.1 hkept
    obtain ⟨-, hindicesNesting, hiteratorsNesting, hbodyNesting⟩ := forall_nesting_le hnesting
    have hindices : reads levels strings? (strings indices) = some indices :=
      reads_strings hindicesNesting
    have hiterators : reads levels (listOf? (expr? fuel)) (.array (exprsToJson iterators)) =
        some iterators :=
      reads_array hiteratorsNesting hbelow fun l hl hle =>
        reads_exprsToJson iterators hl hle hiteratorsKept
    have hbody : reads levels (listOf? (stmt? fuel)) (.array (stmtsToJson body)) = some body :=
      reads_array hbodyNesting hbelow fun l hl hle => reads_stmtsToJson body hl hle hbodyKept
    refine reads_fields
      ⟨⟨_, back_string _⟩, changed_of hindices, changed_of hiterators, changed_of hbody⟩
      fun fs' hfs => ?_
    have hIndices : fs'.required "indices" strings? = _ := required_of hindices hfs rfl
    have hIterators : fs'.required "iterators" (listOf? (expr? fuel)) = _ :=
      required_of hiterators hfs rfl
    have hBody : fs'.defaulted "body" [] (listOf? (stmt? fuel)) = _ := defaulted_of hbody hfs rfl
    rw [stmt?, tagged?_back stmtKinds hfs rfl]
    simp only [Option.bind_eq_bind, Option.bind_some, hIndices, hIterators, hBody]
    rfl
  | branch cond thenBody elseBody =>
    obtain ⟨hfirstKept, helseKept⟩ := List.forall_mem_append.1 hkept
    obtain ⟨hcondKept, hthenKept⟩ := List.forall_mem_append.1 hfirstKept
    obtain ⟨-, hcondNesting, hthenNesting, helseNesting⟩ := forall_nesting_le hnesting
    have hcond : reads levels (expr? fuel) cond.toJson = some cond :=
      cond.reads_toJson hcondNesting hbelow hcondKept
    have hthen : reads levels (listOf? (stmt? fuel)) (.array (stmtsToJson thenBody)) =
        some thenBody :=
      reads_array hthenNesting hbelow fun l hl hle => reads_stmtsToJson thenBody hl hle hthenKept
    have helse : reads levels (listOf? (stmt? fuel)) (.array (stmtsToJson elseBody)) =
        some elseBody :=
      reads_array helseNesting hbelow fun l hl hle => reads_stmtsToJson elseBody hl hle helseKept
    refine reads_fields ⟨⟨_, back_string _⟩, changed_of hcond, changed_of hthen, changed_of helse⟩
      fun fs' hfs => ?_
    have hCond : fs'.required "cond" (expr? fuel) = _ := required_of hcond hfs rfl
    have hThen : fs'.defaulted "then_s" [] (listOf? (stmt? fuel)) = _ :=
      defaulted_of hthen hfs rfl
    have hElse : fs'.defaulted "else_s" [] (listOf? (stmt? fuel)) = _ :=
      defaulted_of helse hfs rfl
    rw [stmt?, tagged?_back stmtKinds hfs rfl]
    simp only [Option.bind_eq_bind, Option.bind_some, hCond, hThen, hElse]
    rfl
  | select selector arms =>
    obtain ⟨hselectorKept, harmsKept⟩ := List.forall_mem_append.1 hkept
    obtain ⟨-, hselectorNesting, harmsNesting⟩ := forall_nesting_le hnesting
    have hselector : reads levels (expr? fuel) selector.toJson = some selector :=
      selector.reads_toJson hselectorNesting hbelow hselectorKept
    have harms : reads levels (listOf? (arm? fuel)) (.array (armsToJson arms)) = some arms :=
      reads_array harmsNesting hbelow fun l hl hle => reads_armsToJson arms hl hle harmsKept
    refine reads_fields ⟨⟨_, back_string _⟩, changed_of hselector, changed_of harms⟩
      fun fs' hfs => ?_
    have hSelector : fs'.required "selector" (expr? fuel) = _ := required_of hselector hfs rfl
    have hArms : fs'.required "whens" (listOf? (arm? fuel)) = _ := required_of harms hfs rfl
    rw [stmt?, tagged?_back stmtKinds hfs rfl]
    simp only [Option.bind_eq_bind, Option.bind_some, hSelector, hArms]
    rfl
  | «return» value =>
    cases value with
    | none =>
      have hnull : reads levels (Json.Value.nullable? (expr? fuel)) .null = some none := rfl
      refine reads_fields ⟨⟨_, back_string _⟩, changed_of hnull⟩ fun fs' hfs => ?_
      have hNull : fs'.nullable "value" (expr? fuel) = _ := defaulted_of hnull hfs rfl
      rw [stmt?, tagged?_back stmtKinds hfs rfl]
      simp only [Option.bind_eq_bind, Option.bind_some, hNull]
      rfl
    | some e =>
      obtain ⟨-, heNesting⟩ := forall_nesting_le hnesting
      have he : reads levels (expr? fuel) e.toJson = some e :=
        e.reads_toJson heNesting hbelow hkept
      have hsome := reads_nullable he (by cases fuel <;> rfl)
      refine reads_fields ⟨⟨_, back_string _⟩, changed_of he⟩ fun fs' hfs => ?_
      have hSome : fs'.nullable "value" (expr? fuel) = _ := defaulted_of hsome hfs rfl
      rw [stmt?, tagged?_back stmtKinds hfs rfl]
      simp only [Option.bind_eq_bind, Option.bind_some, hSome]
      rfl
  | label name | goto name =>
    refine reads_named rfl fun fs' hfs hname => ?_
    rw [stmt?, tagged?_back stmtKinds hfs rfl]
    simp only [Option.bind_eq_bind, Option.bind_some, hname]
    rfl

/-- The statements of a list are read back. -/
theorem reads_stmtsToJson (ss : List Stmt) {levels fuel : Nat}
    (hnesting : nestings (stmtsToJson ss) ≤ levels) (hfuel : levels ≤ fuel)
    (hkept : ∀ x ∈ stmtsFloats ss, Keeps x) :
    (stmtsToJson ss).mapM (reads levels (stmt? fuel)) = some ss := by
  cases ss with
  | nil => rfl
  | cons s ss =>
    obtain ⟨hnestingFirst, hnestingRest⟩ := Nat.max_le.1 hnesting
    obtain ⟨hkeptFirst, hkeptRest⟩ := List.forall_mem_append.1 hkept
    have hfirst := s.reads_toJson hnestingFirst hfuel hkeptFirst
    have hrest := reads_stmtsToJson ss hnestingRest hfuel hkeptRest
    rw [stmtsToJson, List.mapM_cons, hfirst, hrest]
    rfl

/-- **Arms are read back.** -/
theorem Arm.reads_toJson (a : Arm) {levels fuel : Nat} (hnesting : a.toJson.nesting ≤ levels)
    (hfuel : levels ≤ fuel) (hkept : ∀ x ∈ a.floats, Keeps x) :
    reads levels (arm? fuel) a.toJson = some a := by
  obtain ⟨levels, fuel, rfl, rfl, hbelow⟩ := exists_pred a.nesting_pos hnesting hfuel
  obtain ⟨cases, body⟩ := a
  obtain ⟨hcasesKept, hbodyKept⟩ := List.forall_mem_append.1 hkept
  obtain ⟨hcasesNesting, hbodyNesting⟩ := forall_nesting_le hnesting
  have hcases : reads levels (listOf? (expr? fuel)) (.array (exprsToJson cases)) = some cases :=
    reads_array hcasesNesting hbelow fun l hl hle => reads_exprsToJson cases hl hle hcasesKept
  have hbody : reads levels (listOf? (stmt? fuel)) (.array (stmtsToJson body)) = some body :=
    reads_array hbodyNesting hbelow fun l hl hle => reads_stmtsToJson body hl hle hbodyKept
  refine reads_fields ⟨changed_of hcases, changed_of hbody⟩ fun fs' hfs => ?_
  have hCases : fs'.defaulted "cases" [] (listOf? (expr? fuel)) = _ := defaulted_of hcases hfs rfl
  have hBody : fs'.defaulted "body" [] (listOf? (stmt? fuel)) = _ := defaulted_of hbody hfs rfl
  rw [arm?]
  simp only [Json.Value.fields?, Option.bind_eq_bind, Option.bind_some, hCases, hBody]
  rfl

/-- The arms of a list are read back. -/
theorem reads_armsToJson (as : List Arm) {levels fuel : Nat}
    (hnesting : nestings (armsToJson as) ≤ levels) (hfuel : levels ≤ fuel)
    (hkept : ∀ x ∈ armsFloats as, Keeps x) :
    (armsToJson as).mapM (reads levels (arm? fuel)) = some as := by
  cases as with
  | nil => rfl
  | cons a as =>
    obtain ⟨hnestingFirst, hnestingRest⟩ := Nat.max_le.1 hnesting
    obtain ⟨hkeptFirst, hkeptRest⟩ := List.forall_mem_append.1 hkept
    have hfirst := a.reads_toJson hnestingFirst hfuel hkeptFirst
    have hrest := reads_armsToJson as hnestingRest hfuel hkeptRest
    rw [armsToJson, List.mapM_cons, hfirst, hrest]
    rfl

end

end Source

end TreeMachine
