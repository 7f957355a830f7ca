import TreeMachine.Proofs.Source.Validity

/-!
# Labels and jumps, body by body

What a definition relies on is listed place by place, so that a label is compared with the labels
before it and a closure is met in the middle of the body around it. Taken together this says that
each body by itself has labels of different names and jumps that can go to their labels
(`Program.fits_uses`). Hence a definition is valid if nothing is wrong at its places
(`Program.valid_iff`).

The two descriptions serve different ends. The list has an order, and the first place where
something is wrong is what linking reports. The description by bodies is the one to be read: for
each body of the definition, those of closures included, no two labels have the same name, and each
jump has a label of its name that opens to it. That they are equivalent is an induction on the
definition, in which the labels so far are handed from statement to statement and those of a closure
begin anew.

Numbers of statements are relative to a body in the one description and run on in the other, but
which labels there are, and what is around them, does not depend on where the count begins
(`Stmt.labelNames_landmarks`).

Variables and functions are the same in both, place by place, as they are visible from bodies around
as well.
-/

namespace TreeMachine.Source

/-! ### The names of labels -/

@[simp]
theorem labelNames_append (ks ks' : List Landmark) :
    labelNames (ks ++ ks') = labelNames ks' ++ labelNames ks := by
  simp [labelNames]

mutual

/-- The names of labels depend neither on the number of a statement nor on what is around it. -/
theorem Stmt.labelNames_landmarks (n n' : Nat) (around around' : List Nat) : ∀ s : Stmt,
    labelNames (s.landmarks n around) = labelNames (s.landmarks n' around')
  | .expr _ | .return _ | .label _ | .goto _ => rfl
  | .block body => stmts_labelNames_landmarks _ _ _ _ body
  | .loop _ body _ => stmts_labelNames_landmarks _ _ _ _ body
  | .forall _ _ body => stmts_labelNames_landmarks _ _ _ _ body
  | .branch cond thenBody elseBody => by
    simp only [Stmt.landmarks, labelNames_append]
    rw [stmts_labelNames_landmarks _ (n' + 1 + cond.size) _ (n' :: around') thenBody,
      stmts_labelNames_landmarks _ (n' + 1 + cond.size + stmtsSize thenBody) _ (n' :: around')
        elseBody]
  | .select _ arms => arms_labelNames_landmarks _ _ _ _ arms

theorem stmts_labelNames_landmarks (n n' : Nat) (around around' : List Nat) : ∀ ss : List Stmt,
    labelNames (stmtsLandmarks n around ss) = labelNames (stmtsLandmarks n' around' ss)
  | [] => rfl
  | s :: ss => by
    simp only [stmtsLandmarks, labelNames_append]
    rw [Stmt.labelNames_landmarks n n' around around' s,
      stmts_labelNames_landmarks _ (n' + s.size) around around' ss]

theorem Arm.labelNames_landmarks (n n' : Nat) (around around' : List Nat) : ∀ a : Arm,
    labelNames (a.landmarks n around) = labelNames (a.landmarks n' around')
  | .mk _ body => stmts_labelNames_landmarks _ _ _ _ body

theorem arms_labelNames_landmarks (n n' : Nat) (around around' : List Nat) : ∀ as : List Arm,
    labelNames (armsLandmarks n around as) = labelNames (armsLandmarks n' around' as)
  | [] => rfl
  | a :: as => by
    simp only [armsLandmarks, labelNames_append]
    rw [Arm.labelNames_landmarks n n' around around' a,
      arms_labelNames_landmarks _ (n' + a.size) around around' as]

end

/-! ### Labels and jumps of bodies -/

/-- Whether something is required of a label or a jump. -/
def Use.ofBody : Use → Bool
  | .label .. | .goto .. => true
  | .var .. | .function .. => false

/-- All is well with the labels and jumps at some places. -/
def Fits (us : List Use) : Prop :=
  ∀ u ∈ us, u.ofBody = true → u.error? = none

/-- All is well with the labels and jumps of a body. -/
structure BodyFits (body : List Stmt) : Prop where
  labels : (labelNames (stmtsLandmarks 0 [] body)).Nodup
  gotos : ∀ jump ∈ stmtsLandmarks 0 [] body, jump.isLabel = false →
    ∃ label ∈ stmtsLandmarks 0 [] body, label.isLabel = true ∧ label.name = jump.name ∧
      label.OpensTo jump

@[simp]
theorem fits_nil : Fits [] :=
  nofun

@[simp]
theorem fits_append {us us' : List Use} : Fits (us ++ us') ↔ Fits us ∧ Fits us' :=
  List.forall_mem_append

@[simp]
theorem fits_var {name : String} {visible : List String} {us : List Use} :
    Fits (.var name visible :: us) ↔ Fits us :=
  List.forall_mem_cons.trans (and_iff_right nofun)

@[simp]
theorem fits_function {name : String} {visible : List String} :
    Fits [.function name visible] :=
  List.forall_mem_singleton.2 nofun

@[simp]
theorem fits_label {name : String} {earlier : List String} :
    Fits [.label name earlier] ↔ name ∉ earlier := by
  simp [Fits, Use.ofBody, Use.error?]

@[simp]
theorem fits_gotoUses {ks : List Landmark} :
    Fits (gotoUses ks) ↔ ∀ jump ∈ ks, jump.isLabel = false →
      ∃ label ∈ ks, label.isLabel = true ∧ label.name = jump.name ∧ label.OpensTo jump := by
  simp only [Fits, gotoUses, List.forall_mem_map, Use.ofBody, forall_const, Use.error?,
    List.mem_filter, Bool.not_eq_true', and_imp, and_assoc]
  refine forall_congr' fun jump => forall_congr' fun _ => forall_congr' fun _ => ?_
  refine ⟨fun h => ?_, fun h => if_pos h⟩
  split at h
  · assumption
  · split at h <;> cases h

/-- The labels of a sequence are fine if those of its first part are, and then those of the rest
after them. -/
theorem fits_append_of_nodup {us us' : List Use} {names names' labels : List String} {P P' : Prop}
    (h : Fits us ↔ (names ++ labels).Nodup ∧ P)
    (h' : (names ++ labels).Nodup → (Fits us' ↔ (names' ++ (names ++ labels)).Nodup ∧ P')) :
    Fits (us ++ us') ↔ (names' ++ names ++ labels).Nodup ∧ P ∧ P' := by
  rw [fits_append, h, List.append_assoc]
  constructor
  · rintro ⟨⟨hnodup, hP⟩, hus'⟩
    obtain ⟨hall, hP'⟩ := (h' hnodup).1 hus'
    exact ⟨hall, hP, hP'⟩
  · rintro ⟨hall, hP, hP'⟩
    have hnodup : (names ++ labels).Nodup := (List.nodup_append.1 hall).2.1
    exact ⟨⟨hnodup, hP⟩, (h' hnodup).2 ⟨hall, hP'⟩⟩

/-- A body is fine if its labels are, its jumps are, and the bodies in it are. -/
theorem fits_body {us : List Use} {body : List Stmt}
    (h : Fits us ↔ (labelNames (stmtsLandmarks 0 [] body) ++ []).Nodup ∧
      ∀ b ∈ stmtsBodies body, BodyFits b) :
    Fits (us ++ gotoUses (stmtsLandmarks 0 [] body)) ↔
      ∀ b ∈ body :: stmtsBodies body, BodyFits b := by
  rw [fits_append, h, List.append_nil, fits_gotoUses, List.forall_mem_cons]
  exact ⟨fun ⟨⟨hlabels, hrest⟩, hgotos⟩ => ⟨⟨hlabels, hgotos⟩, hrest⟩,
    fun ⟨⟨hlabels, hgotos⟩, hrest⟩ => ⟨⟨hlabels, hrest⟩, hgotos⟩⟩

mutual

/-- **Labels and jumps** in an expression are fine if they are in the bodies of its closures. -/
theorem Expr.fits_uses (functions vars : List String) : ∀ e : Expr,
    Fits (e.uses functions vars) ↔ ∀ body ∈ e.bodies, BodyFits body
  | .scalar _ | .var _ | .declare _ | .name _ | .function _ => by simp [Expr.uses, Expr.bodies]
  | .assign _ value => by
    rw [Expr.uses, Expr.bodies, fits_var, value.fits_uses]
  | .call callee args => by
    rw [Expr.uses, Expr.bodies, fits_append, List.forall_mem_append, callee.fits_uses,
      fits_exprsUses]
  | .choose cond thenExpr elseExpr => by
    rw [Expr.uses, Expr.bodies, fits_append, fits_append, List.forall_mem_append,
      List.forall_mem_append, cond.fits_uses, thenExpr.fits_uses, elseExpr.fits_uses]
  | .closure params body => by
    exact fits_body (fits_stmtsUses functions (params ++ vars) .nil body)

theorem fits_exprsUses (functions vars : List String) : ∀ es : List Expr,
    Fits (exprsUses functions vars es) ↔ ∀ body ∈ exprsBodies es, BodyFits body
  | [] => by simp [exprsUses, exprsBodies]
  | e :: es => by
    rw [exprsUses, exprsBodies, fits_append, List.forall_mem_append, e.fits_uses, fits_exprsUses]

/-- Labels are fine in a sequence after earlier ones if all of them are different. -/
theorem Stmt.fits_uses (functions vars : List String) {labels : List String}
    (hlabels : labels.Nodup) : ∀ s : Stmt,
      Fits (s.uses functions vars labels) ↔
        (labelNames (s.landmarks 0 []) ++ labels).Nodup ∧ ∀ body ∈ s.bodies, BodyFits body
  | .expr e => by
    rw [Stmt.uses, Stmt.bodies, e.fits_uses]
    exact (and_iff_right hlabels).symm
  | .block body => by
    rw [Stmt.uses, Stmt.bodies, fits_stmtsUses _ _ hlabels, Stmt.landmarks,
      stmts_labelNames_landmarks (_ + _) 0 (_ :: _) []]
  | .loop cond body _ => by
    rw [Stmt.uses, Stmt.bodies, fits_append, List.forall_mem_append, cond.fits_uses,
      fits_stmtsUses _ _ hlabels, Stmt.landmarks, stmts_labelNames_landmarks (_ + _) 0 (_ :: _) [],
      and_left_comm]
  | .forall _ iterators body => by
    rw [Stmt.uses, Stmt.bodies, fits_append, List.forall_mem_append, fits_exprsUses,
      fits_stmtsUses _ _ hlabels, Stmt.landmarks, stmts_labelNames_landmarks (_ + _) 0 (_ :: _) [],
      and_left_comm]
  | .branch cond thenBody elseBody => by
    have hbodies := fits_append_of_nodup
      (fits_stmtsUses functions (cond.declares ++ vars) hlabels thenBody)
      fun hnodup => fits_stmtsUses functions (cond.declares ++ vars) hnodup elseBody
    rw [Stmt.uses, Stmt.bodies, fits_append, cond.fits_uses, hbodies, Stmt.landmarks,
      labelNames_append, stmts_labelNames_landmarks (_ + _) 0 (_ :: _) [] thenBody,
      stmts_labelNames_landmarks (_ + _) 0 (_ :: _) [] elseBody, List.forall_mem_append,
      List.forall_mem_append, and_left_comm]
  | .select selector arms => by
    rw [Stmt.uses, Stmt.bodies, fits_append, List.forall_mem_append, selector.fits_uses,
      fits_armsUses _ _ hlabels, Stmt.landmarks, arms_labelNames_landmarks (_ + _) 0 (_ :: _) [],
      and_left_comm]
  | .return none => by
    simpa [Stmt.uses, Stmt.bodies, Stmt.landmarks, labelNames] using hlabels
  | .return (some value) => by
    rw [Stmt.uses, Stmt.bodies, value.fits_uses]
    exact (and_iff_right hlabels).symm
  | .label name => by
    simp [Stmt.uses, Stmt.bodies, Stmt.landmarks, labelNames, hlabels]
  | .goto label => by
    simpa [Stmt.uses, Stmt.bodies, Stmt.landmarks, labelNames] using hlabels

theorem fits_stmtsUses (functions vars : List String) {labels : List String}
    (hlabels : labels.Nodup) : ∀ ss : List Stmt,
      Fits (stmtsUses functions vars labels ss) ↔
        (labelNames (stmtsLandmarks 0 [] ss) ++ labels).Nodup ∧
          ∀ body ∈ stmtsBodies ss, BodyFits body
  | [] => by simpa [stmtsUses, stmtsBodies, stmtsLandmarks, labelNames] using hlabels
  | s :: ss => by
    rw [stmtsUses, stmtsBodies, stmtsLandmarks, labelNames_append,
      stmts_labelNames_landmarks (_ + _) 0 [] [], List.forall_mem_append]
    exact fits_append_of_nodup (s.fits_uses functions vars hlabels)
      fun hnodup => fits_stmtsUses functions (s.declares ++ vars) hnodup ss

theorem Arm.fits_uses (functions vars : List String) {labels : List String}
    (hlabels : labels.Nodup) : ∀ a : Arm,
      Fits (a.uses functions vars labels) ↔
        (labelNames (a.landmarks 0 []) ++ labels).Nodup ∧ ∀ body ∈ a.bodies, BodyFits body
  | .mk cases body => by
    rw [Arm.uses, Arm.bodies, fits_append, List.forall_mem_append, fits_exprsUses,
      fits_stmtsUses _ _ hlabels, Arm.landmarks, stmts_labelNames_landmarks (_ + _) 0 (_ :: _) [],
      and_left_comm]

theorem fits_armsUses (functions vars : List String) {labels : List String}
    (hlabels : labels.Nodup) : ∀ as : List Arm,
      Fits (armsUses functions vars labels as) ↔
        (labelNames (armsLandmarks 0 [] as) ++ labels).Nodup ∧
          ∀ body ∈ armsBodies as, BodyFits body
  | [] => by simpa [armsUses, armsBodies, armsLandmarks, labelNames] using hlabels
  | a :: as => by
    rw [armsUses, armsBodies, armsLandmarks, labelNames_append,
      arms_labelNames_landmarks (_ + _) 0 [] [], List.forall_mem_append]
    exact fits_append_of_nodup (a.fits_uses functions vars hlabels)
      fun hnodup => fits_armsUses functions (a.declares ++ vars) hnodup as

end

theorem fits_bodyUses (functions vars : List String) (body : List Stmt) :
    Fits (bodyUses functions vars body) ↔ ∀ b ∈ body :: stmtsBodies body, BodyFits b :=
  fits_body (fits_stmtsUses functions vars .nil body)

mutual

theorem Function.fits_uses (functions vars : List String) : ∀ f : Function,
    Fits (f.uses functions vars) ↔ ∀ body ∈ f.bodies, BodyFits body
  | .mk _ params inner body => by
    rw [Function.uses, Function.bodies, fits_append, List.forall_mem_append, fits_bodyUses,
      fits_functionsUses]

theorem fits_functionsUses (functions vars : List String) : ∀ fs : List Function,
    Fits (functionsUses functions vars fs) ↔ ∀ body ∈ functionsBodies fs, BodyFits body
  | [] => by simp [functionsUses, functionsBodies]
  | f :: fs => by
    rw [functionsUses, functionsBodies, fits_append, List.forall_mem_append, f.fits_uses,
      fits_functionsUses]

end

/-- **Labels and jumps** are fine if they are in each body by itself. -/
theorem Program.fits_uses (d : Program) : Fits d.uses ↔ ∀ body ∈ d.bodies, BodyFits body := by
  simp only [Fits, Program.uses, Program.bodies, List.forall_mem_flatMap]
  refine forall_congr' fun m => forall_congr' fun _ => ?_
  have hmodule : Fits m.uses ↔ ∀ body ∈ m.bodies, BodyFits body := by
    rw [Module.uses, Module.bodies, fits_append, List.forall_mem_append, fits_bodyUses,
      fits_functionsUses]
  exact hmodule

/-! ### The first error -/

theorem Program.entryError?_eq_none (d : Program) : d.entryError? = none ↔ match d.entry with
    | some name => d.candidates.count name = 1
    | none => d.candidates.count Link.defaultEntry ≤ 1 := by
  rw [entryError?, entryName]
  cases d.entry with
  | none =>
    rw [Option.getD_none]
    generalize d.candidates.count Link.defaultEntry = n
    match n with
    | 0 | 1 | n + 2 => simp
  | some name =>
    rw [Option.getD_some]
    dsimp only
    generalize d.candidates.count name = n
    match n with
    | 0 | 1 | n + 2 => simp

/-- **A definition is valid** if nothing is wrong with it. -/
theorem Program.valid_iff (d : Program) : d.Valid ↔ d.error? = none := by
  rw [error?, Option.or_eq_none_iff, List.findSome?_eq_none_iff, entryError?_eq_none]
  constructor
  · intro h
    have hfits := d.fits_uses.2 fun body hbody => ⟨h.labels body hbody, h.gotos body hbody⟩
    refine ⟨fun u hu => ?_, h.entry⟩
    cases u with
    | var name visible => exact if_pos (h.vars name visible hu)
    | function name visible => exact if_pos (h.functions name visible hu)
    | label name earlier => exact hfits _ hu rfl
    | goto jump labels => exact hfits _ hu rfl
  · rintro ⟨h, hentry⟩
    have hfits := d.fits_uses.1 fun u hu _ => h u hu
    refine ⟨fun name visible hu => ?_, fun name visible hu => ?_,
      fun body hbody => (hfits body hbody).labels, fun body hbody => (hfits body hbody).gotos,
      hentry⟩
    · simpa [Use.error?] using h _ hu
    · simpa [Use.error?] using h _ hu

end TreeMachine.Source
