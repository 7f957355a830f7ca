import TreeMachine.Proofs.Source.Validity

/-!
# Definitions with a reference more

`Program.Writes` says that a reference to a function is written into a statement of a definition.
The statement is given by its number, which is the one that linking gives it, and the reference is
written around one of its expressions, of any depth: an expression `e` becomes the call of the
function with `e`. The definition declares the same as before and numbers its statements and labels
in the same way. What it relies on is one use more, in the place of the reference (`Gains`).

It is a relation between two definitions with a constructor for each place that an expression can be
in, so that a proof about it is an induction that goes along one path through the definition and
leaves the rest alone. The relation carries the number of the first statement of the part, which is
how the statement of a given number is found without counting from the beginning each time
(`Stmt.Writes.range`).

The call is put around an expression, and not beside one, because a statement has a fixed number of
places for expressions. For the same reason nothing can be written into labels, jumps, blocks and
returns without a value. What the changed definition would compute does not matter: it is there to
be linked.
-/

namespace TreeMachine.Source

/-! ### Writing a reference -/

mutual

/-- A reference is written into an expression, which belongs to the statement `k` and has statements
from `n` on in its closures. -/
inductive Expr.Writes (name : String) (i : Nat) : Nat → Nat → Expr → Expr → Prop
  | here {n : Nat} {e : Expr} : Expr.Writes name i i n e (.call (.function name) [e])
  | assign {k n : Nat} {x : String} {v v' : Expr} (h : Expr.Writes name i k n v v') :
      Expr.Writes name i k n (.assign x v) (.assign x v')
  | callee {k n : Nat} {c c' : Expr} {args : List Expr} (h : Expr.Writes name i k n c c') :
      Expr.Writes name i k n (.call c args) (.call c' args)
  | args {k n : Nat} {c : Expr} {args args' : List Expr}
      (h : ExprsWrites name i k (n + c.size) args args') :
      Expr.Writes name i k n (.call c args) (.call c args')
  | cond {k n : Nat} {c c' t f : Expr} (h : Expr.Writes name i k n c c') :
      Expr.Writes name i k n (.choose c t f) (.choose c' t f)
  | thenExpr {k n : Nat} {c t t' f : Expr} (h : Expr.Writes name i k (n + c.size) t t') :
      Expr.Writes name i k n (.choose c t f) (.choose c t' f)
  | elseExpr {k n : Nat} {c t f f' : Expr} (h : Expr.Writes name i k (n + c.size + t.size) f f') :
      Expr.Writes name i k n (.choose c t f) (.choose c t f')
  | closure {k n : Nat} {params : List String} {body body' : List Stmt}
      (h : StmtsWrites name i n body body') :
      Expr.Writes name i k n (.closure params body) (.closure params body')

/-- A reference is written into one of some expressions. -/
inductive ExprsWrites (name : String) (i : Nat) : Nat → Nat → List Expr → List Expr → Prop
  | head {k n : Nat} {e e' : Expr} {es : List Expr} (h : Expr.Writes name i k n e e') :
      ExprsWrites name i k n (e :: es) (e' :: es)
  | tail {k n : Nat} {e : Expr} {es es' : List Expr}
      (h : ExprsWrites name i k (n + e.size) es es') : ExprsWrites name i k n (e :: es) (e :: es')

/-- A reference is written into the statement with number `n`, or into one inside it. -/
inductive Stmt.Writes (name : String) (i : Nat) : Nat → Stmt → Stmt → Prop
  | expr {n : Nat} {e e' : Expr} (h : Expr.Writes name i n (n + 1) e e') :
      Stmt.Writes name i n (.expr e) (.expr e')
  | block {n : Nat} {body body' : List Stmt} (h : StmtsWrites name i (n + 1) body body') :
      Stmt.Writes name i n (.block body) (.block body')
  | loopCond {n : Nat} {c c' : Expr} {body : List Stmt} {testLast : Bool}
      (h : Expr.Writes name i n (n + 1) c c') :
      Stmt.Writes name i n (.loop c body testLast) (.loop c' body testLast)
  | loopBody {n : Nat} {c : Expr} {body body' : List Stmt} {testLast : Bool}
      (h : StmtsWrites name i (n + 1 + c.size) body body') :
      Stmt.Writes name i n (.loop c body testLast) (.loop c body' testLast)
  | iterators {n : Nat} {indices : List String} {es es' : List Expr} {body : List Stmt}
      (h : ExprsWrites name i n (n + 1) es es') :
      Stmt.Writes name i n (.forall indices es body) (.forall indices es' body)
  | forallBody {n : Nat} {indices : List String} {es : List Expr} {body body' : List Stmt}
      (h : StmtsWrites name i (n + 1 + exprsSize es) body body') :
      Stmt.Writes name i n (.forall indices es body) (.forall indices es body')
  | branchCond {n : Nat} {c c' : Expr} {thenBody elseBody : List Stmt}
      (h : Expr.Writes name i n (n + 1) c c') :
      Stmt.Writes name i n (.branch c thenBody elseBody) (.branch c' thenBody elseBody)
  | thenBody {n : Nat} {c : Expr} {thenBody thenBody' elseBody : List Stmt}
      (h : StmtsWrites name i (n + 1 + c.size) thenBody thenBody') :
      Stmt.Writes name i n (.branch c thenBody elseBody) (.branch c thenBody' elseBody)
  | elseBody {n : Nat} {c : Expr} {thenBody elseBody elseBody' : List Stmt}
      (h : StmtsWrites name i (n + 1 + c.size + stmtsSize thenBody) elseBody elseBody') :
      Stmt.Writes name i n (.branch c thenBody elseBody) (.branch c thenBody elseBody')
  | selector {n : Nat} {c c' : Expr} {arms : List Arm} (h : Expr.Writes name i n (n + 1) c c') :
      Stmt.Writes name i n (.select c arms) (.select c' arms)
  | arms {n : Nat} {c : Expr} {arms arms' : List Arm}
      (h : ArmsWrites name i (n + 1 + c.size) arms arms') :
      Stmt.Writes name i n (.select c arms) (.select c arms')
  | return {n : Nat} {v v' : Expr} (h : Expr.Writes name i n (n + 1) v v') :
      Stmt.Writes name i n (.return (some v)) (.return (some v'))

/-- A reference is written into one of the statements of a sequence. -/
inductive StmtsWrites (name : String) (i : Nat) : Nat → List Stmt → List Stmt → Prop
  | head {n : Nat} {s s' : Stmt} {ss : List Stmt} (h : Stmt.Writes name i n s s') :
      StmtsWrites name i n (s :: ss) (s' :: ss)
  | tail {n : Nat} {s : Stmt} {ss ss' : List Stmt} (h : StmtsWrites name i (n + s.size) ss ss') :
      StmtsWrites name i n (s :: ss) (s :: ss')

/-- A reference is written into the arm with number `n`. -/
inductive Arm.Writes (name : String) (i : Nat) : Nat → Arm → Arm → Prop
  | cases {n : Nat} {cs cs' : List Expr} {body : List Stmt}
      (h : ExprsWrites name i n (n + 1) cs cs') : Arm.Writes name i n (.mk cs body) (.mk cs' body)
  | body {n : Nat} {cs : List Expr} {body body' : List Stmt}
      (h : StmtsWrites name i (n + 1 + exprsSize cs) body body') :
      Arm.Writes name i n (.mk cs body) (.mk cs body')

/-- A reference is written into one of the arms of a select. -/
inductive ArmsWrites (name : String) (i : Nat) : Nat → List Arm → List Arm → Prop
  | head {n : Nat} {a a' : Arm} {as : List Arm} (h : Arm.Writes name i n a a') :
      ArmsWrites name i n (a :: as) (a' :: as)
  | tail {n : Nat} {a : Arm} {as as' : List Arm} (h : ArmsWrites name i (n + a.size) as as') :
      ArmsWrites name i n (a :: as) (a :: as')

end

mutual

/-- The number of statements in a function, with those of the functions inside it. -/
def Function.size : Function → Nat
  | .mk _ _ inner body => stmtsSize body + functionsSize inner

/-- The number of statements in functions. -/
def functionsSize : List Function → Nat
  | [] => 0
  | f :: fs => f.size + functionsSize fs

end

/-- The number of statements in a module. -/
def Module.size (m : Module) : Nat :=
  stmtsSize m.body + functionsSize m.functions

mutual

/-- A reference is written into a function whose statements are numbered from `n` on. -/
inductive Function.Writes (name : String) (i : Nat) : Nat → Function → Function → Prop
  | body {n : Nat} {fn : String} {params : List String} {inner : List Function}
      {body body' : List Stmt} (h : StmtsWrites name i n body body') :
      Function.Writes name i n (.mk fn params inner body) (.mk fn params inner body')
  | inner {n : Nat} {fn : String} {params : List String} {inner inner' : List Function}
      {body : List Stmt} (h : FunctionsWrites name i (n + stmtsSize body) inner inner') :
      Function.Writes name i n (.mk fn params inner body) (.mk fn params inner' body)

/-- A reference is written into one of some functions. -/
inductive FunctionsWrites (name : String) (i : Nat) : Nat → List Function → List Function → Prop
  | head {n : Nat} {f f' : Function} {fs : List Function} (h : Function.Writes name i n f f') :
      FunctionsWrites name i n (f :: fs) (f' :: fs)
  | tail {n : Nat} {f : Function} {fs fs' : List Function}
      (h : FunctionsWrites name i (n + f.size) fs fs') :
      FunctionsWrites name i n (f :: fs) (f :: fs')

end

/-- A reference is written into a module whose statements are numbered from `n` on. -/
inductive Module.Writes (name : String) (i : Nat) : Nat → Module → Module → Prop
  | body {n : Nat} {m : String} {fs : List Function} {body body' : List Stmt}
      (h : StmtsWrites name i n body body') :
      Module.Writes name i n ⟨m, fs, body⟩ ⟨m, fs, body'⟩
  | functions {n : Nat} {m : String} {fs fs' : List Function} {body : List Stmt}
      (h : FunctionsWrites name i (n + stmtsSize body) fs fs') :
      Module.Writes name i n ⟨m, fs, body⟩ ⟨m, fs', body⟩

/-- A reference is written into one of some modules. -/
inductive ModulesWrites (name : String) (i : Nat) : Nat → List Module → List Module → Prop
  | head {n : Nat} {m m' : Module} {ms : List Module} (h : Module.Writes name i n m m') :
      ModulesWrites name i n (m :: ms) (m' :: ms)
  | tail {n : Nat} {m : Module} {ms ms' : List Module}
      (h : ModulesWrites name i (n + m.size) ms ms') : ModulesWrites name i n (m :: ms) (m :: ms')

/-- A reference to a function is written into the statement with number `i` of a program. -/
structure Program.Writes (d : Program) (name : String) (i : Nat) (d' : Program) : Prop where
  modules : ModulesWrites name i 0 d.modules d'.modules
  entry : d'.entry = d.entry

variable {name : String} {i k n : Nat}

/-! ### What stays -/

mutual

/-- There are as many statements as before. -/
theorem Expr.Writes.size_eq {k n : Nat} : ∀ {e e' : Expr}, Expr.Writes name i k n e e' →
    e'.size = e.size
  | _, _, .here => by rw [Expr.size, Expr.size, exprsSize, exprsSize, Nat.zero_add, Nat.add_zero]
  | _, _, .assign h | _, _, .callee h | _, _, .args h | _, _, .cond h | _, _, .thenExpr h
  | _, _, .elseExpr h | _, _, .closure h => by rw [Expr.size, Expr.size, h.size_eq]

theorem ExprsWrites.size_eq {k n : Nat} : ∀ {es es' : List Expr}, ExprsWrites name i k n es es' →
    exprsSize es' = exprsSize es
  | _, _, .head h | _, _, .tail h => by rw [exprsSize, exprsSize, h.size_eq]

theorem Stmt.Writes.size_eq {n : Nat} : ∀ {s s' : Stmt}, Stmt.Writes name i n s s' →
    s'.size = s.size
  | _, _, .expr h | _, _, .block h | _, _, .loopCond h | _, _, .loopBody h | _, _, .iterators h
  | _, _, .forallBody h | _, _, .branchCond h | _, _, .thenBody h | _, _, .elseBody h
  | _, _, .selector h | _, _, .arms h | _, _, .return h => by rw [Stmt.size, Stmt.size, h.size_eq]

theorem StmtsWrites.size_eq {n : Nat} : ∀ {ss ss' : List Stmt}, StmtsWrites name i n ss ss' →
    stmtsSize ss' = stmtsSize ss
  | _, _, .head h | _, _, .tail h => by rw [stmtsSize, stmtsSize, h.size_eq]

theorem Arm.Writes.size_eq {n : Nat} : ∀ {a a' : Arm}, Arm.Writes name i n a a' → a'.size = a.size
  | _, _, .cases h | _, _, .body h => by rw [Arm.size, Arm.size, h.size_eq]

theorem ArmsWrites.size_eq {n : Nat} : ∀ {as as' : List Arm}, ArmsWrites name i n as as' →
    armsSize as' = armsSize as
  | _, _, .head h | _, _, .tail h => by rw [armsSize, armsSize, h.size_eq]

end

mutual

/-- The same variables are declared, in the same order. -/
theorem Expr.Writes.declares_eq {k n : Nat} : ∀ {e e' : Expr}, Expr.Writes name i k n e e' →
    e'.declares = e.declares
  | _, _, .here => by
    rw [Expr.declares, Expr.declares, exprsDeclares, exprsDeclares, List.append_nil,
      List.nil_append]
  | _, _, .assign h | _, _, .callee h | _, _, .args h | _, _, .cond h | _, _, .thenExpr h
  | _, _, .elseExpr h => by rw [Expr.declares, Expr.declares, h.declares_eq]
  | _, _, .closure _ => rfl

theorem ExprsWrites.declares_eq {k n : Nat} : ∀ {es es' : List Expr},
    ExprsWrites name i k n es es' → exprsDeclares es' = exprsDeclares es
  | _, _, .head h | _, _, .tail h => by rw [exprsDeclares, exprsDeclares, h.declares_eq]

end

theorem Arm.Writes.declares_eq {a a' : Arm} : Arm.Writes name i n a a' → a'.declares = a.declares
  | .cases h => h.declares_eq
  | .body _ => rfl

theorem ArmsWrites.declares_eq {n : Nat} : ∀ {as as' : List Arm}, ArmsWrites name i n as as' →
    armsDeclares as' = armsDeclares as
  | _, _, .head h | _, _, .tail h => by rw [armsDeclares, armsDeclares, h.declares_eq]

theorem Stmt.Writes.declares_eq {s s' : Stmt} : Stmt.Writes name i n s s' →
    s'.declares = s.declares
  | .expr h | .loopCond h | .iterators h | .branchCond h | .selector h | .arms h | .return h => by
    rw [Stmt.declares, Stmt.declares, h.declares_eq]
  | .block _ | .loopBody _ | .forallBody _ | .thenBody _ | .elseBody _ => rfl

mutual

/-- The same labels and jumps are there, with the same numbers. -/
theorem Stmt.Writes.landmarks_eq {n : Nat} (m : Nat) (around : List Nat) : ∀ {s s' : Stmt},
    Stmt.Writes name i n s s' → s'.landmarks m around = s.landmarks m around
  | _, _, .expr _ | _, _, .return _ => rfl
  | _, _, .loopCond h | _, _, .iterators h | _, _, .branchCond h | _, _, .selector h => by
    rw [Stmt.landmarks, Stmt.landmarks, h.size_eq]
  | _, _, .block h | _, _, .loopBody h | _, _, .forallBody h | _, _, .elseBody h
  | _, _, .arms h => by rw [Stmt.landmarks, Stmt.landmarks, h.landmarks_eq]
  | _, _, .thenBody h => by rw [Stmt.landmarks, Stmt.landmarks, h.landmarks_eq, h.size_eq]

theorem StmtsWrites.landmarks_eq {n : Nat} (m : Nat) (around : List Nat) :
    ∀ {ss ss' : List Stmt}, StmtsWrites name i n ss ss' →
      stmtsLandmarks m around ss' = stmtsLandmarks m around ss
  | _, _, .head h => by rw [stmtsLandmarks, stmtsLandmarks, h.landmarks_eq, h.size_eq]
  | _, _, .tail h => by rw [stmtsLandmarks, stmtsLandmarks, h.landmarks_eq]

theorem Arm.Writes.landmarks_eq {n : Nat} (m : Nat) (around : List Nat) : ∀ {a a' : Arm},
    Arm.Writes name i n a a' → a'.landmarks m around = a.landmarks m around
  | _, _, .cases h => by rw [Arm.landmarks, Arm.landmarks, h.size_eq]
  | _, _, .body h => by rw [Arm.landmarks, Arm.landmarks, h.landmarks_eq]

theorem ArmsWrites.landmarks_eq {n : Nat} (m : Nat) (around : List Nat) :
    ∀ {as as' : List Arm}, ArmsWrites name i n as as' →
      armsLandmarks m around as' = armsLandmarks m around as
  | _, _, .head h => by rw [armsLandmarks, armsLandmarks, h.landmarks_eq, h.size_eq]
  | _, _, .tail h => by rw [armsLandmarks, armsLandmarks, h.landmarks_eq]

end

/-! ### Where the reference is -/

mutual

/-- The reference is in the statement that the expression belongs to, or in one of a closure. -/
theorem Expr.Writes.range {k n : Nat} : ∀ {e e' : Expr}, Expr.Writes name i k n e e' →
    i = k ∨ n ≤ i ∧ i < n + e.size
  | _, _, .here => .inl rfl
  | _, _, .assign h | _, _, .callee h | _, _, .args h | _, _, .cond h | _, _, .thenExpr h
  | _, _, .elseExpr h => by
    have hrange := h.range
    simp only [Expr.size]
    omega
  | _, _, .closure h => .inr h.range

theorem ExprsWrites.range {k n : Nat} : ∀ {es es' : List Expr}, ExprsWrites name i k n es es' →
    i = k ∨ n ≤ i ∧ i < n + exprsSize es
  | _, _, .head h | _, _, .tail h => by
    have hrange := h.range
    simp only [exprsSize]
    omega

/-- The reference is in the statement, or in one inside it. -/
theorem Stmt.Writes.range {n : Nat} : ∀ {s s' : Stmt}, Stmt.Writes name i n s s' →
    n ≤ i ∧ i < n + s.size
  | _, _, .expr h | _, _, .block h | _, _, .loopCond h | _, _, .loopBody h | _, _, .iterators h
  | _, _, .forallBody h | _, _, .branchCond h | _, _, .thenBody h | _, _, .elseBody h
  | _, _, .selector h | _, _, .arms h | _, _, .return h => by
    have hrange := h.range
    simp only [Stmt.size]
    omega

theorem StmtsWrites.range {n : Nat} : ∀ {ss ss' : List Stmt}, StmtsWrites name i n ss ss' →
    n ≤ i ∧ i < n + stmtsSize ss
  | _, _, .head h | _, _, .tail h => by
    have hrange := h.range
    simp only [stmtsSize]
    omega

theorem Arm.Writes.range {n : Nat} : ∀ {a a' : Arm}, Arm.Writes name i n a a' →
    n ≤ i ∧ i < n + a.size
  | _, _, .cases h | _, _, .body h => by
    have hrange := h.range
    simp only [Arm.size]
    omega

theorem ArmsWrites.range {n : Nat} : ∀ {as as' : List Arm}, ArmsWrites name i n as as' →
    n ≤ i ∧ i < n + armsSize as
  | _, _, .head h | _, _, .tail h => by
    have hrange := h.range
    simp only [armsSize]
    omega

end

/-! ### What is relied on -/

/-- A list with one item more, somewhere. -/
def Gains {α : Type} (x : α) (xs xs' : List α) : Prop :=
  ∃ before after, xs = before ++ after ∧ xs' = before ++ x :: after

namespace Gains

variable {α : Type} {x : α} {xs xs' : List α}

theorem prepend (h : Gains x xs xs') (ys : List α) : Gains x (ys ++ xs) (ys ++ xs') := by
  obtain ⟨before, after, rfl, rfl⟩ := h
  exact ⟨ys ++ before, after, by rw [List.append_assoc], by rw [List.append_assoc]⟩

theorem append (h : Gains x xs xs') (ys : List α) : Gains x (xs ++ ys) (xs' ++ ys) := by
  obtain ⟨before, after, rfl, rfl⟩ := h
  exact ⟨before, after ++ ys, by rw [List.append_assoc], by rw [List.append_assoc]; rfl⟩

end Gains

mutual

/-- **A reference that is written into an expression** is all that the expression relies on besides
what it has relied on before. -/
theorem Expr.Writes.uses {k n : Nat} (functions vars : List String) : ∀ {e e' : Expr},
    Expr.Writes name i k n e e' →
      Gains (.function name functions) (e.uses functions vars) (e'.uses functions vars)
  | _, _, .here => ⟨[], _, rfl, by
    rw [Expr.uses, Expr.uses, exprsUses, exprsUses, List.append_nil]
    rfl⟩
  | _, _, .assign h => (h.uses functions vars).prepend [_]
  | _, _, .callee h => by
    rw [Expr.uses, Expr.uses, h.declares_eq]
    exact (h.uses functions vars).append _
  | _, _, .args h => (h.uses functions _).prepend _
  | _, _, .cond h => by
    rw [Expr.uses, Expr.uses, h.declares_eq]
    exact (h.uses functions vars).append _
  | _, _, .thenExpr h => by
    rw [Expr.uses, Expr.uses, h.declares_eq]
    exact ((h.uses functions _).append _).prepend _
  | _, _, .elseExpr h => ((h.uses functions _).prepend _).prepend _
  | _, _, .closure h => by
    rw [Expr.uses, Expr.uses, h.landmarks_eq]
    exact (h.uses functions _ []).append _

theorem ExprsWrites.uses {k n : Nat} (functions vars : List String) : ∀ {es es' : List Expr},
    ExprsWrites name i k n es es' →
      Gains (.function name functions) (exprsUses functions vars es) (exprsUses functions vars es')
  | _, _, .head h => by
    rw [exprsUses, exprsUses, h.declares_eq]
    exact (h.uses functions vars).append _
  | _, _, .tail h => (h.uses functions _).prepend _

/-- **A reference that is written into a statement** is all that the statement relies on besides
what it has relied on before. -/
theorem Stmt.Writes.uses {n : Nat} (functions vars labels : List String) : ∀ {s s' : Stmt},
    Stmt.Writes name i n s s' →
      Gains (.function name functions) (s.uses functions vars labels)
        (s'.uses functions vars labels)
  | _, _, .expr h | _, _, .return h => h.uses functions vars
  | _, _, .block h => h.uses functions vars labels
  | _, _, .loopCond h => by
    rw [Stmt.uses, Stmt.uses, h.declares_eq]
    exact (h.uses functions vars).append _
  | _, _, .loopBody h => (h.uses functions _ labels).prepend _
  | _, _, .iterators h => by
    rw [Stmt.uses, Stmt.uses, h.declares_eq]
    exact (h.uses functions vars).append _
  | _, _, .forallBody h => (h.uses functions _ labels).prepend _
  | _, _, .branchCond h => by
    rw [Stmt.uses, Stmt.uses, h.declares_eq]
    exact (h.uses functions vars).append _
  | _, _, .thenBody h => by
    rw [Stmt.uses, Stmt.uses, h.landmarks_eq]
    exact ((h.uses functions _ labels).append _).prepend _
  | _, _, .elseBody h => ((h.uses functions _ _).prepend _).prepend _
  | _, _, .selector h => by
    rw [Stmt.uses, Stmt.uses, h.declares_eq]
    exact (h.uses functions vars).append _
  | _, _, .arms h => (h.uses functions _ labels).prepend _

theorem StmtsWrites.uses {n : Nat} (functions vars labels : List String) :
    ∀ {ss ss' : List Stmt}, StmtsWrites name i n ss ss' →
      Gains (.function name functions) (stmtsUses functions vars labels ss)
        (stmtsUses functions vars labels ss')
  | _, _, .head h => by
    rw [stmtsUses, stmtsUses, h.declares_eq, h.landmarks_eq]
    exact (h.uses functions vars labels).append _
  | _, _, .tail h => (h.uses functions _ _).prepend _

theorem Arm.Writes.uses {n : Nat} (functions vars labels : List String) : ∀ {a a' : Arm},
    Arm.Writes name i n a a' →
      Gains (.function name functions) (a.uses functions vars labels)
        (a'.uses functions vars labels)
  | _, _, .cases h => by
    rw [Arm.uses, Arm.uses, h.declares_eq]
    exact (h.uses functions vars).append _
  | _, _, .body h => (h.uses functions _ labels).prepend _

theorem ArmsWrites.uses {n : Nat} (functions vars labels : List String) :
    ∀ {as as' : List Arm}, ArmsWrites name i n as as' →
      Gains (.function name functions) (armsUses functions vars labels as)
        (armsUses functions vars labels as')
  | _, _, .head h => by
    rw [armsUses, armsUses, h.declares_eq, h.landmarks_eq]
    exact (h.uses functions vars labels).append _
  | _, _, .tail h => (h.uses functions _ _).prepend _

end

/-- A body with a reference more relies on it. -/
theorem StmtsWrites.bodyUses {ss ss' : List Stmt} (h : StmtsWrites name i n ss ss')
    (functions vars : List String) :
    Gains (.function name functions) (bodyUses functions vars ss)
      (bodyUses functions vars ss') := by
  rw [Source.bodyUses, Source.bodyUses, h.landmarks_eq]
  exact (h.uses functions vars []).append _

/-! ### Functions and modules -/

theorem Function.Writes.name_eq {f f' : Function} : Function.Writes name i n f f' → f'.name = f.name
  | .body _ | .inner _ => rfl

/-- The same functions are declared. -/
theorem FunctionsWrites.names_eq {n : Nat} : ∀ {fs fs' : List Function},
    FunctionsWrites name i n fs fs' → fs'.map Function.name = fs.map Function.name
  | _, _, .head h => by rw [List.map_cons, List.map_cons, h.name_eq]
  | _, _, .tail h => by rw [List.map_cons, List.map_cons, h.names_eq]

/-- The same functions are candidates for the entry. -/
theorem ModulesWrites.candidates_eq {ms ms' : List Module} (h : ModulesWrites name i n ms ms') :
    (ms'.flatMap fun m => m.functions.map Function.name) =
      ms.flatMap fun m => m.functions.map Function.name := by
  induction h with
  | head h =>
    cases h with
    | body _ => rfl
    | functions h => rw [List.flatMap_cons, List.flatMap_cons, h.names_eq]
  | tail _ ih => rw [List.flatMap_cons, List.flatMap_cons, ih]

/-- **A valid definition with a reference more** is valid if what the reference relies on is there.
Otherwise that is what is wrong with it. -/
theorem Program.Writes.error?_eq {d d' : Program} {visible : List String} (hw : d.Writes name i d')
    (hgains : Gains (.function name visible) d.uses d'.uses) (hd : d.error? = none) :
    d'.error? = (Use.function name visible).error? := by
  obtain ⟨huses, hentry⟩ := Option.or_eq_none_iff.1 hd
  have hcandidates : d'.candidates = d.candidates := hw.modules.candidates_eq
  have hentry' : d'.entryError? = none := by
    rw [← hentry, Program.entryError?, Program.entryError?, hcandidates, Program.entryName,
      Program.entryName, hw.entry]
  obtain ⟨before, after, hbefore, hafter⟩ := hgains
  rw [hbefore, List.findSome?_append, Option.or_eq_none_iff] at huses
  rw [Program.error?, hentry', Option.or_none, hafter, List.findSome?_append, huses.1,
    Option.none_or, List.findSome?_cons, huses.2]
  cases (Use.function name visible).error? <;> rfl

end TreeMachine.Source
