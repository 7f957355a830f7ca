import TreeMachine.Linking

/-!
# Valid program definitions

Whether a definition can be linked is judged here on the definition alone. `Program.uses` lists what
has to hold, place by place in the order of the definition: a variable is used where names are
visible, a function is named where functions are visible, a label is declared after other labels of
its body, and a jump names one of the labels of its body. What is not as it should be is an error
(`Use.error?`), and `Program.error?` is the first one. `Program.Valid` says what a valid definition
is: its variables and functions place by place, its labels and jumps body by body.

Variables are visible from their declaration to the end of the frame that they are declared in. A
frame is opened by a sequence of statements, by the indices of a loop over collections, and by the
parameters of a closure or of a function; a function does not see the variables of the statements
around it, but the parameters of the functions around it. Names are declared in the order of the
definition, whatever is evaluated in the end: both branches of a choice declare theirs, and so does
a condition for the statements after it.

Within a body its statements are numbered, each one before those inside it, so that it can be said
which statements are around a label or a jump (`Landmark`). The bodies of functions, modules and
closures have labels of their own.
-/

namespace TreeMachine.Source

/-! ### How many statements there are -/

mutual

/-- The number of statements in an expression, which are those of its closures. -/
def Expr.size : Expr → Nat
  | .scalar _ | .var _ | .declare _ | .name _ | .function _ => 0
  | .assign _ value => value.size
  | .call callee args => callee.size + exprsSize args
  | .choose cond thenExpr elseExpr => cond.size + thenExpr.size + elseExpr.size
  | .closure _ body => stmtsSize body

/-- The number of statements in expressions. -/
def exprsSize : List Expr → Nat
  | [] => 0
  | e :: es => e.size + exprsSize es

/-- The number of statements in a statement, with itself. -/
def Stmt.size : Stmt → Nat
  | .expr e => 1 + e.size
  | .block body => 1 + stmtsSize body
  | .loop cond body _ => 1 + (cond.size + stmtsSize body)
  | .forall _ iterators body => 1 + (exprsSize iterators + stmtsSize body)
  | .branch cond thenBody elseBody => 1 + (cond.size + stmtsSize thenBody + stmtsSize elseBody)
  | .select selector arms => 1 + (selector.size + armsSize arms)
  | .return none => 1
  | .return (some value) => 1 + value.size
  | .label _ | .goto _ => 1

/-- The number of statements in a sequence. -/
def stmtsSize : List Stmt → Nat
  | [] => 0
  | s :: ss => s.size + stmtsSize ss

/-- The number of statements in an arm, which is one itself. -/
def Arm.size : Arm → Nat
  | .mk cases body => 1 + (exprsSize cases + stmtsSize body)

/-- The number of statements in arms. -/
def armsSize : List Arm → Nat
  | [] => 0
  | a :: as => a.size + armsSize as

end

/-! ### Variables -/

mutual

/-- The names that an expression declares in the frame that it stands in. -/
def Expr.declares : Expr → List String
  | .scalar _ | .var _ | .name _ | .function _ | .closure .. => []
  | .declare name => [name]
  | .assign _ value => value.declares
  | .call callee args => exprsDeclares args ++ callee.declares
  | .choose cond thenExpr elseExpr => elseExpr.declares ++ (thenExpr.declares ++ cond.declares)

/-- The names that expressions declare, those of the last one first. -/
def exprsDeclares : List Expr → List String
  | [] => []
  | e :: es => exprsDeclares es ++ e.declares

end

mutual

/-- The names that a statement declares in the frame that it stands in, which are those of its own
expressions. -/
def Stmt.declares : Stmt → List String
  | .expr e => e.declares
  | .block _ | .return none | .label _ | .goto _ => []
  | .loop cond _ _ => cond.declares
  | .forall _ iterators _ => exprsDeclares iterators
  | .branch cond _ _ => cond.declares
  | .select selector arms => armsDeclares arms ++ selector.declares
  | .return (some value) => value.declares

/-- The names that an arm declares in the frame of its select. -/
def Arm.declares : Arm → List String
  | .mk cases _ => exprsDeclares cases

/-- The names that the arms of a select declare, those of the last one first. -/
def armsDeclares : List Arm → List String
  | [] => []
  | a :: as => armsDeclares as ++ a.declares

end

/-! ### Labels and jumps -/

/-- A label or a jump of a body: its name, its number in the body, and the numbers of the statements
around it, innermost first. -/
structure Landmark where
  isLabel : Bool
  name : String
  number : Nat
  around : List Nat
  deriving DecidableEq

mutual

/-- The labels and jumps of a statement with the given number, in a body where the given statements
are around it. Those of closures are not among them. -/
def Stmt.landmarks (n : Nat) (around : List Nat) : Stmt → List Landmark
  | .expr _ | .return _ => []
  | .block body => stmtsLandmarks (n + 1) (n :: around) body
  | .loop cond body _ => stmtsLandmarks (n + 1 + cond.size) (n :: around) body
  | .forall _ iterators body => stmtsLandmarks (n + 1 + exprsSize iterators) (n :: around) body
  | .branch cond thenBody elseBody =>
    stmtsLandmarks (n + 1 + cond.size) (n :: around) thenBody ++
      stmtsLandmarks (n + 1 + cond.size + stmtsSize thenBody) (n :: around) elseBody
  | .select selector arms => armsLandmarks (n + 1 + selector.size) (n :: around) arms
  | .label name => [⟨true, name, n, around⟩]
  | .goto label => [⟨false, label, n, around⟩]

/-- The labels and jumps of a sequence. -/
def stmtsLandmarks (n : Nat) (around : List Nat) : List Stmt → List Landmark
  | [] => []
  | s :: ss => s.landmarks n around ++ stmtsLandmarks (n + s.size) around ss

/-- The labels and jumps of an arm. -/
def Arm.landmarks (n : Nat) (around : List Nat) : Arm → List Landmark
  | .mk cases body => stmtsLandmarks (n + 1 + exprsSize cases) (n :: around) body

/-- The labels and jumps of arms. -/
def armsLandmarks (n : Nat) (around : List Nat) : List Arm → List Landmark
  | [] => []
  | a :: as => a.landmarks n around ++ armsLandmarks (n + a.size) around as

end

/-- The names of the labels among landmarks, the last one first. -/
def labelNames (ks : List Landmark) : List String :=
  ((ks.filter (·.isLabel)).map (·.name)).reverse

/-- A label can be jumped to from a jump of the same body: it stands at the top of the body, or the
statement directly around it is around the jump as well. -/
def Landmark.OpensTo (label jump : Landmark) : Prop :=
  ∀ q ∈ label.around.head?, q ∈ jump.around

instance (label jump : Landmark) : Decidable (label.OpensTo jump) :=
  inferInstanceAs (Decidable (∀ q ∈ label.around.head?, q ∈ jump.around))

/-! ### Places that something is required of -/

/-- Something that a definition relies on: a variable where names are visible, a function where
functions are visible, a label after earlier labels of its body, a jump to one of the labels of its
body. -/
inductive Use
  | var (name : String) (visible : List String)
  | function (name : String) (visible : List String)
  | label (name : String) (earlier : List String)
  | goto (jump : Landmark) (labels : List Landmark)

/-- What is wrong at a place, if anything is. -/
def Use.error? : Use → Option LinkError
  | .var name visible => if name ∈ visible then none else some (.unknownName name)
  | .function name visible =>
    if visible.count name = 1 then none
    else some (.unresolvedFunction name (visible.count name))
  | .label name earlier => if name ∈ earlier then some (.duplicateLabel name) else none
  | .goto jump labels =>
    if ∃ k ∈ labels, k.name = jump.name ∧ k.OpensTo jump then none
    else if ∃ k ∈ labels, k.name = jump.name then some (.jumpIntoNested jump.name)
    else some (.unknownLabel jump.name)

/-- The jumps of a body, with its labels. -/
def gotoUses (ks : List Landmark) : List Use :=
  (ks.filter (!·.isLabel)).map fun jump => .goto jump (ks.filter (·.isLabel))

mutual

/-- What an expression relies on where the given functions and variables are visible. -/
def Expr.uses (functions vars : List String) : Expr → List Use
  | .scalar _ | .declare _ | .name _ => []
  | .var name => [.var name vars]
  | .assign name value => .var name vars :: value.uses functions vars
  | .function name => [.function name functions]
  | .call callee args =>
    callee.uses functions vars ++ exprsUses functions (callee.declares ++ vars) args
  | .choose cond thenExpr elseExpr =>
    cond.uses functions vars ++ (thenExpr.uses functions (cond.declares ++ vars) ++
      elseExpr.uses functions (thenExpr.declares ++ (cond.declares ++ vars)))
  | .closure params body =>
    stmtsUses functions (params ++ vars) [] body ++ gotoUses (stmtsLandmarks 0 [] body)

/-- What expressions rely on. -/
def exprsUses (functions vars : List String) : List Expr → List Use
  | [] => []
  | e :: es => e.uses functions vars ++ exprsUses functions (e.declares ++ vars) es

/-- What a statement relies on after the given labels of its body. -/
def Stmt.uses (functions vars labels : List String) : Stmt → List Use
  | .expr e => e.uses functions vars
  | .block body => stmtsUses functions vars labels body
  | .loop cond body _ =>
    cond.uses functions vars ++ stmtsUses functions (cond.declares ++ vars) labels body
  | .forall indices iterators body =>
    exprsUses functions vars iterators ++
      stmtsUses functions (indices ++ (exprsDeclares iterators ++ vars)) labels body
  | .branch cond thenBody elseBody =>
    cond.uses functions vars ++ (stmtsUses functions (cond.declares ++ vars) labels thenBody ++
      stmtsUses functions (cond.declares ++ vars)
        (labelNames (stmtsLandmarks 0 [] thenBody) ++ labels) elseBody)
  | .select selector arms =>
    selector.uses functions vars ++ armsUses functions (selector.declares ++ vars) labels arms
  | .return none | .goto _ => []
  | .return (some value) => value.uses functions vars
  | .label name => [.label name labels]

/-- What the statements of a sequence rely on, one after the other. -/
def stmtsUses (functions vars labels : List String) : List Stmt → List Use
  | [] => []
  | s :: ss =>
    s.uses functions vars labels ++ stmtsUses functions (s.declares ++ vars)
      (labelNames (s.landmarks 0 []) ++ labels) ss

/-- What an arm relies on. -/
def Arm.uses (functions vars labels : List String) : Arm → List Use
  | .mk cases body =>
    exprsUses functions vars cases ++
      stmtsUses functions (exprsDeclares cases ++ vars) labels body

/-- What the arms of a select rely on, one after the other. -/
def armsUses (functions vars labels : List String) : List Arm → List Use
  | [] => []
  | a :: as =>
    a.uses functions vars labels ++ armsUses functions (a.declares ++ vars)
      (labelNames (a.landmarks 0 []) ++ labels) as

end

/-- What a body relies on. Its jumps come last, as they may name labels after them. -/
def bodyUses (functions vars : List String) (body : List Stmt) : List Use :=
  stmtsUses functions vars [] body ++ gotoUses (stmtsLandmarks 0 [] body)

mutual

/-- What a function relies on where the given functions and parameters are visible. The functions
inside it are visible in it and in each other. -/
def Function.uses (functions vars : List String) : Function → List Use
  | .mk _ params inner body =>
    bodyUses (inner.map Function.name ++ functions) (params ++ vars) body ++
      functionsUses (inner.map Function.name ++ functions) (params ++ vars) inner

/-- What functions rely on. -/
def functionsUses (functions vars : List String) : List Function → List Use
  | [] => []
  | f :: fs => f.uses functions vars ++ functionsUses functions vars fs

end

/-- The functions of a module that are visible everywhere in it: its own ones and the primitives. -/
def Module.visible (m : Module) : List String :=
  m.functions.map Function.name ++ Primitive.all.map Primitive.name

/-- What a module relies on. Its variables are visible in its own statements only. -/
def Module.uses (m : Module) : List Use :=
  bodyUses m.visible [] m.body ++ functionsUses m.visible [] m.functions

/-- What a program relies on. -/
def Program.uses (d : Program) : List Use :=
  d.modules.flatMap Module.uses

/-! ### Bodies -/

mutual

/-- The bodies of the closures in an expression. -/
def Expr.bodies : Expr → List (List Stmt)
  | .scalar _ | .var _ | .declare _ | .name _ | .function _ => []
  | .assign _ value => value.bodies
  | .call callee args => callee.bodies ++ exprsBodies args
  | .choose cond thenExpr elseExpr => cond.bodies ++ (thenExpr.bodies ++ elseExpr.bodies)
  | .closure _ body => body :: stmtsBodies body

/-- The bodies of the closures in expressions. -/
def exprsBodies : List Expr → List (List Stmt)
  | [] => []
  | e :: es => e.bodies ++ exprsBodies es

/-- The bodies of the closures in a statement. -/
def Stmt.bodies : Stmt → List (List Stmt)
  | .expr e => e.bodies
  | .block body => stmtsBodies body
  | .loop cond body _ => cond.bodies ++ stmtsBodies body
  | .forall _ iterators body => exprsBodies iterators ++ stmtsBodies body
  | .branch cond thenBody elseBody => cond.bodies ++ (stmtsBodies thenBody ++ stmtsBodies elseBody)
  | .select selector arms => selector.bodies ++ armsBodies arms
  | .return none | .label _ | .goto _ => []
  | .return (some value) => value.bodies

/-- The bodies of the closures in a sequence. -/
def stmtsBodies : List Stmt → List (List Stmt)
  | [] => []
  | s :: ss => s.bodies ++ stmtsBodies ss

/-- The bodies of the closures in an arm. -/
def Arm.bodies : Arm → List (List Stmt)
  | .mk cases body => exprsBodies cases ++ stmtsBodies body

/-- The bodies of the closures in arms. -/
def armsBodies : List Arm → List (List Stmt)
  | [] => []
  | a :: as => a.bodies ++ armsBodies as

end

mutual

/-- The bodies in a function: its own, those of its closures, and those in the functions inside
it. -/
def Function.bodies : Function → List (List Stmt)
  | .mk _ _ inner body => (body :: stmtsBodies body) ++ functionsBodies inner

/-- The bodies in functions. -/
def functionsBodies : List Function → List (List Stmt)
  | [] => []
  | f :: fs => f.bodies ++ functionsBodies fs

end

/-- The bodies in a module. -/
def Module.bodies (m : Module) : List (List Stmt) :=
  (m.body :: stmtsBodies m.body) ++ functionsBodies m.functions

/-- The bodies in a program. -/
def Program.bodies (d : Program) : List (List Stmt) :=
  d.modules.flatMap Module.bodies

/-! ### Valid definitions -/

/-- The names of the functions that may be the entry: those of the modules, but not the functions
inside other functions. -/
def Program.candidates (d : Program) : List String :=
  d.modules.flatMap fun m => m.functions.map Function.name

/-- The name of the entry function. -/
def Program.entryName (d : Program) : String :=
  d.entry.getD Link.defaultEntry

/-- What is wrong with the entry function, if anything is. Only the default one may be missing. -/
def Program.entryError? (d : Program) : Option LinkError :=
  match d.candidates.count d.entryName, d.entry with
  | 0, none | 1, _ => none
  | 0, some name => some (.missingEntry name)
  | _, _ => some (.ambiguousEntry d.entryName)

/-- The first thing that is wrong with a definition, if anything is. -/
def Program.error? (d : Program) : Option LinkError :=
  (d.uses.findSome? Use.error?).or d.entryError?

/-- **A valid definition.** Every variable that is used is visible; every function that is named is
the only visible one of its name; the labels of a body have different names; every jump names a
label of its body that it can jump to; and there is one function for the entry, or none if the entry
is not named. -/
structure Program.Valid (d : Program) : Prop where
  vars : ∀ name visible, .var name visible ∈ d.uses → name ∈ visible
  functions : ∀ name visible, .function name visible ∈ d.uses → visible.count name = 1
  labels : ∀ body ∈ d.bodies, (labelNames (stmtsLandmarks 0 [] body)).Nodup
  gotos : ∀ body ∈ d.bodies, ∀ jump ∈ stmtsLandmarks 0 [] body, jump.isLabel = false →
    ∃ label ∈ stmtsLandmarks 0 [] body, label.isLabel = true ∧ label.name = jump.name ∧
      label.OpensTo jump
  entry : match d.entry with
    | some name => d.candidates.count name = 1
    | none => d.candidates.count Link.defaultEntry ≤ 1

end TreeMachine.Source
