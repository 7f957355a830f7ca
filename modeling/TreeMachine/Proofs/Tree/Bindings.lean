import Mathlib.Data.List.Forall2
import Mathlib.Data.List.Induction
import TreeMachine.Node

/-!
# Lexical bindings

What a definition declares and refers to is listed in the order in which it is linked, with the
frames of variables that are entered and left in between (`ScopeEvent`). The rule of bindings speaks
of such a list alone. A declaration is visible as long as its frame is open (`ScopeEvent.Visible`),
and a name is bound by the visible declaration that is innermost and, within its frame, the latest
(`ScopeEvent.Binds`).

A stack of frames that is kept along the list finds the declaration of the rule
(`ScopeEvent.Replays.denotes`), and what is declared in a frame matters nowhere else
(`ScopeEvent.Denotes.swap`). Without its ids the list is one of what is mentioned (`Mention`), and
what a reference denotes depends on that only.

The rule is stated without a stack on purpose. It looks back from a place of the list: the
declaration at an earlier place is visible if the frames that are entered after it are as many as
those that are left, up to some that are still open, and never fewer. Their number says how far
inside of the declaration the place is. So the innermost visible declaration is the one with the
least number, and among those with the same number, which are in the same frame, the latest is
meant.

That the stack agrees with the rule is an induction on the list from its end: one event more changes
what is visible in a known way (`ScopeEvent.visible_snoc`). Taking out what is between entering and
leaving a frame changes the places of later events, but neither which of them are visible nor their
order.
-/

namespace TreeMachine

/-- What matters to the variables in scope: a frame is entered or left, a variable is declared, or
an expression refers to one. -/
inductive ScopeEvent
  | enter
  | leave
  | declare (name : String) (x : VarId)
  | refer (name : String) (x : VarId) (e : ExprId)
  deriving DecidableEq

/-- A scope event without ids. -/
inductive Mention
  | enter
  | leave
  | declare (name : String)
  | refer (name : String)
  deriving DecidableEq

/-- What is mentioned in a frame of its own. -/
def Mention.inFrame (ms : List Mention) : List Mention :=
  .enter :: (ms ++ [.leave])

namespace ScopeEvent

/-- What an event mentions. -/
def mention : ScopeEvent → Mention
  | .enter => .enter
  | .leave => .leave
  | .declare name _ => .declare name
  | .refer name _ _ => .refer name

/-- The events in a frame of their own. -/
def inFrame (evs : List ScopeEvent) : List ScopeEvent :=
  .enter :: (evs ++ [.leave])

/-- Variables are declared in order. -/
def declarations (names : List String) (xs : List VarId) : List ScopeEvent :=
  List.zipWith .declare names xs

/-- The variable that an event declares. -/
def declared? : ScopeEvent → Option VarId
  | .declare _ x => some x
  | _ => none

/-! ### The rule -/

variable {evs evs' es fs : List ScopeEvent} {n k l i t : Nat} {name : String} {x : VarId}

/-- How many frames are open after some events, given how many are open before them; nothing if more
frames are left than that. -/
def nesting : Nat → List ScopeEvent → Option Nat
  | n, [] => some n
  | n, .enter :: evs => nesting (n + 1) evs
  | 0, .leave :: _ => none
  | n + 1, .leave :: evs => nesting n evs
  | n, .declare _ _ :: evs => nesting n evs
  | n, .refer _ _ _ :: evs => nesting n evs

/-- The event at a place declares a name in a frame that is open after all the events, with a number
of frames inside it. -/
def Visible (evs : List ScopeEvent) (i : Nat) (name : String) (x : VarId) (k : Nat) : Prop :=
  evs[i]? = some (.declare name x) ∧ nesting 0 (evs.drop (i + 1)) = some k

/-- The declaration at a place is the one that a name is bound by after the events: among those that
are visible it is the innermost one and, within its frame, the latest. -/
def Binds (evs : List ScopeEvent) (name : String) (i : Nat) (x : VarId) : Prop :=
  ∃ k, Visible evs i name x k ∧
    ∀ j y k', Visible evs j name y k' → k < k' ∨ k = k' ∧ j ≤ i

/-- The reference at a place denotes the declaration at another one. -/
def Denotes (evs : List ScopeEvent) (t i : Nat) : Prop :=
  ∃ name x e y, evs[t]? = some (.refer name x e) ∧ Binds (evs.take t) name i y

/-! ### Open frames -/

theorem nesting_append (n : Nat) (es fs : List ScopeEvent) :
    nesting n (es ++ fs) = (nesting n es).bind fun k => nesting k fs := by
  induction es generalizing n with
  | nil => rfl
  | cons e es ih =>
    cases e with
    | leave =>
      cases n with
      | zero => rfl
      | succ n => exact ih n
    | enter => exact ih (n + 1)
    | declare => exact ih n
    | refer => exact ih n

/-- Frames further out make no difference. -/
theorem nesting_add (h : nesting n es = some k) (m : Nat) : nesting (n + m) es = some (k + m) := by
  induction es generalizing n with
  | nil =>
    cases h
    rfl
  | cons e es ih =>
    cases e with
    | leave =>
      cases n with
      | zero => cases h
      | succ n =>
        rw [Nat.add_right_comm]
        exact ih (n := n) h
    | enter =>
      have h' : nesting (n + 1 + m) es = some (k + m) := ih h
      rw [Nat.add_right_comm] at h'
      exact h'
    | declare => exact ih (n := n) h
    | refer => exact ih (n := n) h

/-- Events that leave what they enter, and nothing else. -/
def Balanced (evs : List ScopeEvent) : Prop :=
  nesting 0 evs = some 0

theorem Balanced.neutral (h : Balanced evs) (n : Nat) : nesting n evs = some n := by
  have hadd := nesting_add h n
  rwa [Nat.zero_add] at hadd

theorem Balanced.append (h : Balanced es) (h' : Balanced fs) : Balanced (es ++ fs) := by
  rw [Balanced, nesting_append, h.neutral, Option.bind_some, h'.neutral]

theorem Balanced.framed (h : Balanced evs) : Balanced (inFrame evs) := by
  have hinside : nesting 1 (evs ++ [.leave]) = some 0 := by
    rw [nesting_append, h.neutral]
    rfl
  exact hinside

/-! ### Stacks of frames -/

/-- The frames of variables, innermost and newest first, that there are after some events. Whatever
is referred to is found in them. -/
inductive Replays : List (List (String × VarId)) → List ScopeEvent →
    List (List (String × VarId)) → Prop
  | nil {frames : List (List (String × VarId))} : Replays frames [] frames
  | enter {frames frames' : List (List (String × VarId))} {evs : List ScopeEvent}
      (h : Replays ([] :: frames) evs frames') : Replays frames (.enter :: evs) frames'
  | leave {frame : List (String × VarId)} {frames frames' : List (List (String × VarId))}
      {evs : List ScopeEvent} (h : Replays frames evs frames') :
      Replays (frame :: frames) (.leave :: evs) frames'
  | declare {name : String} {x : VarId} {frame : List (String × VarId)}
      {frames frames' : List (List (String × VarId))} {evs : List ScopeEvent}
      (h : Replays (((name, x) :: frame) :: frames) evs frames') :
      Replays (frame :: frames) (.declare name x :: evs) frames'
  | refer {name : String} {x : VarId} {e : ExprId} {frames frames' : List (List (String × VarId))}
      {evs : List ScopeEvent} (hx : (frames.findSome? fun frame => frame.lookup name) = some x)
      (h : Replays frames evs frames') : Replays frames (.refer name x e :: evs) frames'

variable {frames frames' frames'' : List (List (String × VarId))} {frame : List (String × VarId)}

theorem Replays.append (h : Replays frames es frames') (h' : Replays frames' fs frames'') :
    Replays frames (es ++ fs) frames'' := by
  induction h with
  | nil => exact h'
  | enter _ ih => exact .enter (ih h')
  | leave _ ih => exact .leave (ih h')
  | declare _ ih => exact .declare (ih h')
  | refer hx _ ih => exact .refer hx (ih h')

theorem Replays.split (h : Replays frames (es ++ fs) frames'') :
    ∃ frames', Replays frames es frames' ∧ Replays frames' fs frames'' := by
  induction es generalizing frames with
  | nil => exact ⟨frames, .nil, h⟩
  | cons e es ih =>
    cases h with
    | enter h =>
      obtain ⟨frames', hes, hfs⟩ := ih h
      exact ⟨frames', .enter hes, hfs⟩
    | leave h =>
      obtain ⟨frames', hes, hfs⟩ := ih h
      exact ⟨frames', .leave hes, hfs⟩
    | declare h =>
      obtain ⟨frames', hes, hfs⟩ := ih h
      exact ⟨frames', .declare hes, hfs⟩
    | refer hx h =>
      obtain ⟨frames', hes, hfs⟩ := ih h
      exact ⟨frames', .refer hx hes, hfs⟩

/-- A frame that is entered is the innermost one until it is left. -/
theorem Replays.framed (h : Replays ([] :: frames) evs (frame :: frames)) :
    Replays frames (inFrame evs) frames :=
  .enter (h.append (.leave .nil))

theorem replays_declarations {names : List String} {xs : List VarId}
    (hlength : xs.length = names.length) : Replays (frame :: frames) (declarations names xs)
      (((names.zip xs).reverse ++ frame) :: frames) := by
  induction names generalizing xs frame with
  | nil => exact .nil
  | cons name names ih =>
    cases xs with
    | nil => cases hlength
    | cons x xs =>
      rw [List.zip_cons_cons, List.reverse_cons, List.append_assoc]
      exact .declare (ih (Nat.succ.inj hlength))

/-! ### The stack finds what is bound -/

/-- What is visible after one event more. -/
theorem visible_snoc {e : ScopeEvent} : Visible (evs ++ [e]) i name x k ↔
    (∃ l, Visible evs i name x l ∧ nesting l [e] = some k) ∨
      i = evs.length ∧ e = .declare name x ∧ k = 0 := by
  rcases Nat.lt_trichotomy i evs.length with hi | rfl | hi
  · rw [Visible, List.getElem?_append_left hi, List.drop_append_of_le_length hi, nesting_append,
      Option.bind_eq_some_iff]
    constructor
    · rintro ⟨hget, l, hl, hk⟩
      exact .inl ⟨l, ⟨hget, hl⟩, hk⟩
    · rintro (⟨l, ⟨hget, hl⟩, hk⟩ | ⟨rfl, -⟩)
      · exact ⟨hget, l, hl, hk⟩
      · exact absurd hi (Nat.lt_irrefl _)
  · rw [Visible, List.getElem?_concat_length, List.drop_of_length_le (by simp)]
    constructor
    · rintro ⟨hget, hk⟩
      cases hget
      cases hk
      exact .inr ⟨rfl, rfl, rfl⟩
    · rintro (⟨l, ⟨hget, -⟩, -⟩ | ⟨-, rfl, rfl⟩)
      · rw [List.getElem?_eq_none (Nat.le_refl _)] at hget
        cases hget
      · exact ⟨rfl, rfl⟩
  · have hnone : ∀ {evs' : List ScopeEvent}, evs'.length ≤ i → evs'[i]? = none :=
      List.getElem?_eq_none
    constructor
    · rintro ⟨hget, -⟩
      rw [hnone (by rw [List.length_append]; exact hi)] at hget
      cases hget
    · rintro (⟨l, ⟨hget, -⟩, -⟩ | ⟨rfl, -⟩)
      · rw [hnone (Nat.le_of_lt hi)] at hget
        cases hget
      · exact absurd hi (Nat.lt_irrefl _)

/-- A frame with a number of frames inside it has the latest of its visible declarations for each
name. -/
def Holds (evs : List ScopeEvent) (k : Nat) (frame : List (String × VarId)) : Prop :=
  ∀ name, (∀ x, frame.lookup name = some x →
      ∃ i, Visible evs i name x k ∧ ∀ j y, Visible evs j name y k → j ≤ i) ∧
    (frame.lookup name = none → ∀ j y, ¬Visible evs j name y k)

/-- An event that declares nothing in a frame leaves it as it is. -/
theorem Holds.snoc {e : ScopeEvent} (h : Holds evs k frame)
    (hnesting : ∀ l', nesting l' [e] = some l ↔ l' = k)
    (he : ∀ name x, e = .declare name x → l ≠ 0) : Holds (evs ++ [e]) l frame := by
  have hvisible : ∀ i name x, Visible (evs ++ [e]) i name x l ↔ Visible evs i name x k := by
    intro i name x
    rw [visible_snoc]
    constructor
    · rintro (⟨l', hl', hl⟩ | ⟨-, he', rfl⟩)
      · exact (hnesting l').1 hl ▸ hl'
      · exact absurd rfl (he _ _ he')
    · exact fun h => .inl ⟨k, h, (hnesting k).2 rfl⟩
  intro name
  simp only [hvisible]
  exact h name

/-- A declaration goes into the innermost frame. -/
theorem Holds.declare (h : Holds evs 0 frame) (name : String) (x : VarId) :
    Holds (evs ++ [.declare name x]) 0 ((name, x) :: frame) := by
  intro other
  by_cases hname : other = name
  · subst hname
    have hlookup : List.lookup other ((other, x) :: frame) = some x := List.lookup_cons_self
    refine ⟨fun y hy => ?_, fun hnone => absurd (hnone.symm.trans hlookup) nofun⟩
    cases hy.symm.trans hlookup
    refine ⟨evs.length, visible_snoc.2 (.inr ⟨rfl, rfl, rfl⟩), fun j y hj => ?_⟩
    have hlt := (List.getElem?_eq_some_iff.1 hj.1).1
    rw [List.length_append, List.length_singleton] at hlt
    exact Nat.le_of_lt_succ hlt
  · have hlookup : List.lookup other ((name, x) :: frame) = List.lookup other frame := by
      rw [List.lookup_cons, beq_false_of_ne hname]
    have hvisible : ∀ i y, Visible (evs ++ [.declare name x]) i other y 0 ↔
        Visible evs i other y 0 := by
      intro i y
      rw [visible_snoc]
      constructor
      · rintro (⟨l, hl, hk⟩ | ⟨-, he, -⟩)
        · cases hk
          exact hl
        · cases he
          exact absurd rfl hname
      · exact fun h => .inl ⟨0, h, rfl⟩
    simp only [hlookup, hvisible]
    exact h other

/-- **The stack of frames** after some events has the visible declarations, by induction on the
events. -/
theorem Replays.holds (h : Replays [] evs frames) :
    ∀ k frame, frames[k]? = some frame → Holds evs k frame := by
  induction evs using List.reverseRecOn generalizing frames with
  | nil =>
    cases h
    exact nofun
  | append_singleton evs e ih =>
    obtain ⟨frames', hbefore, hlast⟩ := h.split
    have ih := ih hbefore
    intro k frame hk
    cases hlast with
    | enter h =>
      cases h
      cases k with
      | zero =>
        cases hk
        refine fun name => ⟨nofun, fun _ j y hj => ?_⟩
        rcases visible_snoc.1 hj with ⟨l, -, hl⟩ | ⟨-, he, -⟩
        · cases hl
        · cases he
      | succ k =>
        refine (ih k frame hk).snoc (fun l => ?_) nofun
        exact ⟨fun h => Nat.succ.inj (Option.some.inj h), congrArg fun l => some (l + 1)⟩
    | leave h =>
      cases h
      refine (ih (k + 1) frame hk).snoc (fun l => ?_) nofun
      cases l with
      | zero => exact ⟨nofun, nofun⟩
      | succ l =>
        exact ⟨fun h => congrArg _ (Option.some.inj h), fun h => congrArg _ (Nat.succ.inj h)⟩
    | @declare name x frame₀ _ _ _ h =>
      cases h
      cases k with
      | zero =>
        cases hk
        exact (ih 0 frame₀ rfl).declare name x
      | succ k =>
        refine (ih (k + 1) frame hk).snoc (fun l => ?_) nofun
        exact ⟨fun h => Option.some.inj h, fun h => congrArg _ h⟩
    | refer _ h =>
      cases h
      refine (ih k frame hk).snoc (fun l => ?_) nofun
      exact ⟨fun h => Option.some.inj h, fun h => congrArg _ h⟩

/-- **What the stack finds is bound**: the first frame that has the name is the innermost one with a
visible declaration of it. -/
theorem Replays.binds (h : Replays [] evs frames)
    (hx : (frames.findSome? fun frame => frame.lookup name) = some x) :
    ∃ i, Binds evs name i x := by
  obtain ⟨before, frame, after, rfl, hframe, hbefore⟩ := List.findSome?_eq_some_iff.1 hx
  have hholds := h.holds
  have hat : (before ++ frame :: after)[before.length]? = some frame := by
    rw [List.getElem?_append_right (Nat.le_refl _), Nat.sub_self]
    rfl
  obtain ⟨i, hi, hlatest⟩ := (hholds _ _ hat name).1 x hframe
  refine ⟨i, before.length, hi, fun j y k' hj => ?_⟩
  rcases Nat.lt_trichotomy k' before.length with hlt | rfl | hlt
  · have hget : (before ++ frame :: after)[k']? = some before[k'] := by
      rw [List.getElem?_append_left hlt, List.getElem?_eq_getElem hlt]
    exact absurd hj ((hholds _ _ hget name).2 (hbefore _ (List.getElem_mem hlt)) j y)
  · exact .inr ⟨rfl, hlatest j y hj⟩
  · exact .inl hlt

/-- Every reference of a list of events denotes a declaration, of the variable that it refers to. -/
theorem Replays.denotes (h : Replays [] evs frames) {e : ExprId}
    (ht : evs[t]? = some (.refer name x e)) : ∃ i, Binds (evs.take t) name i x := by
  have hlt := (List.getElem?_eq_some_iff.1 ht).1
  have hsplit : evs = evs.take t ++ .refer name x e :: evs.drop (t + 1) := by
    rw [← (List.getElem?_eq_some_iff.1 ht).2, ← List.drop_eq_getElem_cons hlt,
      List.take_append_drop]
  rw [hsplit] at h
  obtain ⟨frames', hbefore, hafter⟩ := h.split
  cases hafter with
  | refer hx _ => exact hbefore.binds hx

/-! ### What is declared elsewhere -/

/-- Events that differ in ids only. -/
inductive Alike : ScopeEvent → ScopeEvent → Prop
  | enter : Alike .enter .enter
  | leave : Alike .leave .leave
  | declare (name : String) (x y : VarId) : Alike (.declare name x) (.declare name y)
  | refer (name : String) (x y : VarId) (e f : ExprId) : Alike (.refer name x e) (.refer name y f)

theorem Alike.symm {e e' : ScopeEvent} (h : Alike e e') : Alike e' e := by
  cases h <;> constructor

theorem alike_of_mention {e e' : ScopeEvent} (h : e.mention = e'.mention) : Alike e e' := by
  cases e <;> cases e' <;> cases h <;> constructor

/-- Events that mention the same differ in ids only. -/
theorem alike_of_mentions (h : evs.map mention = evs'.map mention) :
    List.Forall₂ Alike evs evs' := by
  induction evs generalizing evs' with
  | nil =>
    obtain rfl := List.map_eq_nil_iff.1 h.symm
    exact .nil
  | cons e evs ih =>
    cases evs' with
    | nil => cases h
    | cons e' evs' =>
      obtain ⟨he, hevs⟩ := List.cons.inj h
      exact .cons (alike_of_mention he) (ih hevs)

theorem nesting_of_alike (h : List.Forall₂ Alike evs evs') (n : Nat) :
    nesting n evs' = nesting n evs := by
  induction h generalizing n with
  | nil => rfl
  | cons he _ ih =>
    cases he with
    | enter => exact ih (n + 1)
    | leave =>
      cases n with
      | zero => rfl
      | succ n => exact ih n
    | declare => exact ih n
    | refer => exact ih n

theorem alike_getElem? (h : List.Forall₂ Alike evs evs') {e : ScopeEvent}
    (ht : evs[t]? = some e) : ∃ e', evs'[t]? = some e' ∧ Alike e e' := by
  induction h generalizing t with
  | nil => cases ht
  | cons he _ ih =>
    cases t with
    | zero =>
      cases ht
      exact ⟨_, rfl, he⟩
    | succ t => exact ih ht

theorem Visible.of_alike (h : List.Forall₂ Alike evs evs') (hi : Visible evs i name x k) :
    ∃ y, Visible evs' i name y k := by
  obtain ⟨e', he', halike⟩ := alike_getElem? h hi.1
  cases halike
  exact ⟨_, he', (nesting_of_alike (List.forall₂_drop (i + 1) h) 0).trans hi.2⟩

theorem Binds.of_alike (h : List.Forall₂ Alike evs evs') (hi : Binds evs name i x) :
    ∃ y, Binds evs' name i y := by
  obtain ⟨k, hvisible, hinner⟩ := hi
  obtain ⟨y, hy⟩ := hvisible.of_alike h
  refine ⟨y, k, hy, fun j z k' hj => ?_⟩
  obtain ⟨z', hz'⟩ := hj.of_alike (h.flip.imp fun _ _ h => h.symm)
  exact hinner j z' k' hz'

/-- What a reference denotes does not depend on the ids. -/
theorem Denotes.of_alike (h : List.Forall₂ Alike evs evs') (ht : Denotes evs t i) :
    Denotes evs' t i := by
  obtain ⟨name, x, e, y, hget, hbinds⟩ := ht
  obtain ⟨e', he', halike⟩ := alike_getElem? h hget
  cases halike
  obtain ⟨y', hy'⟩ := hbinds.of_alike (List.forall₂_take t h)
  exact ⟨name, _, _, y', he', hy'⟩

/-- The place that an event gets when others are put in after the first ones. -/
def past {α : Type} (before inner : List α) (j : Nat) : Nat :=
  if j < before.length then j else j + inner.length

theorem past_map {α β : Type} (f : α → β) (before inner : List α) (j : Nat) :
    past (before.map f) (inner.map f) j = past before inner j := by
  rw [past, past, List.length_map, List.length_map]

variable {A B : List ScopeEvent}

theorem past_le_past {j j' : Nat} : past A es j ≤ past A es j' ↔ j ≤ j' := by
  unfold past
  split <;> split <;> omega

/-- A declaration in a frame is not visible behind it. -/
theorem Balanced.hides (h : Balanced es) (hi : (inFrame es)[i]? = some (.declare name x))
    (hrest : nesting 0 ((inFrame es).drop (i + 1) ++ B) = some k) : False := by
  cases i with
  | zero => cases hi
  | succ i =>
    have hget : (es ++ [.leave])[i]? = some (.declare name x) := hi
    have hdrop : nesting 0 ((es ++ [ScopeEvent.leave]).drop (i + 1) ++ B) = some k := hrest
    rcases Nat.lt_or_ge i es.length with hlt | hge
    · rw [List.getElem?_append_left hlt] at hget
      rw [List.drop_append_of_le_length hlt, List.append_assoc, nesting_append,
        Option.bind_eq_some_iff] at hdrop
      obtain ⟨q, hq, hleave⟩ := hdrop
      -- The rest of the frame goes up by the depth at the declaration, so it leaves nothing open.
      have hsplit : es = es.take i ++ .declare name x :: es.drop (i + 1) := by
        rw [← (List.getElem?_eq_some_iff.1 hget).2, ← List.drop_eq_getElem_cons hlt,
          List.take_append_drop]
      rw [Balanced, hsplit, nesting_append, Option.bind_eq_some_iff] at h
      obtain ⟨l, -, hl⟩ := h
      have hadd := nesting_add hq l
      rw [Nat.zero_add] at hadd
      have heq : some (q + l) = some 0 := hadd.symm.trans hl
      obtain rfl : q = 0 := by
        have := Option.some.inj heq
        omega
      cases hleave
    · rw [List.getElem?_append_right hge] at hget
      cases hj : i - es.length with
      | zero =>
        rw [hj] at hget
        cases hget
      | succ j =>
        rw [hj] at hget
        cases hget

/-- What is visible behind a frame is what is visible without it. -/
theorem visible_insert (h : Balanced es) : Visible (A ++ (inFrame es ++ B)) i name x k ↔
    ∃ j, i = past A (inFrame es) j ∧ Visible (A ++ B) j name x k := by
  have hneutral : ∀ A' : List ScopeEvent, nesting 0 (A' ++ (inFrame es ++ B)) =
      nesting 0 (A' ++ B) := by
    intro A'
    rw [nesting_append, nesting_append]
    refine congrArg _ (funext fun n => ?_)
    rw [nesting_append, h.framed.neutral, Option.bind_some]
  constructor
  · rintro ⟨hget, hnesting⟩
    rcases Nat.lt_or_ge i A.length with hlt | hge
    · rw [List.getElem?_append_left hlt] at hget
      rw [List.drop_append_of_le_length hlt, hneutral] at hnesting
      refine ⟨i, (if_pos hlt).symm, ?_, ?_⟩
      · rw [List.getElem?_append_left hlt, hget]
      · rw [List.drop_append_of_le_length hlt, hnesting]
    · obtain ⟨r, rfl⟩ := Nat.exists_eq_add_of_le hge
      have hdrop : (A ++ (inFrame es ++ B)).drop (A.length + r + 1) =
          (inFrame es ++ B).drop (r + 1) := by
        rw [Nat.add_assoc, List.drop_length_add_append]
      rw [List.getElem?_append_right hge, Nat.add_sub_cancel_left] at hget
      rw [hdrop] at hnesting
      rcases Nat.lt_or_ge r (inFrame es).length with hlt | hge'
      · rw [List.getElem?_append_left hlt] at hget
        rw [List.drop_append_of_le_length hlt] at hnesting
        exact (h.hides hget hnesting).elim
      · obtain ⟨q, rfl⟩ := Nat.exists_eq_add_of_le hge'
        rw [List.getElem?_append_right hge', Nat.add_sub_cancel_left] at hget
        rw [Nat.add_assoc, List.drop_length_add_append] at hnesting
        have hle : A.length ≤ A.length + q := Nat.le_add_right _ _
        refine ⟨A.length + q, ?_, ?_, ?_⟩
        · rw [past, if_neg (Nat.not_lt.2 hle)]
          omega
        · rw [List.getElem?_append_right hle, Nat.add_sub_cancel_left, hget]
        · rw [Nat.add_assoc, List.drop_length_add_append, hnesting]
  · rintro ⟨j, rfl, hget, hnesting⟩
    rcases Nat.lt_or_ge j A.length with hlt | hge
    · rw [past, if_pos hlt]
      rw [List.getElem?_append_left hlt] at hget
      rw [List.drop_append_of_le_length hlt] at hnesting
      refine ⟨?_, ?_⟩
      · rw [List.getElem?_append_left hlt, hget]
      · rw [List.drop_append_of_le_length hlt, hneutral, hnesting]
    · obtain ⟨q, rfl⟩ := Nat.exists_eq_add_of_le hge
      have hlength : A.length + q + (inFrame es).length = A.length + ((inFrame es).length + q) := by
        omega
      rw [past, if_neg (Nat.not_lt.2 hge), hlength]
      rw [List.getElem?_append_right hge, Nat.add_sub_cancel_left] at hget
      rw [Nat.add_assoc, List.drop_length_add_append] at hnesting
      refine ⟨?_, ?_⟩
      · rw [List.getElem?_append_right (Nat.le_add_right _ _), Nat.add_sub_cancel_left,
          List.getElem?_append_right (Nat.le_add_right _ _), Nat.add_sub_cancel_left, hget]
      · rw [Nat.add_assoc, List.drop_length_add_append, Nat.add_assoc, List.drop_length_add_append,
          hnesting]

theorem binds_insert (h : Balanced es) : Binds (A ++ (inFrame es ++ B)) name i x ↔
    ∃ j, i = past A (inFrame es) j ∧ Binds (A ++ B) name j x := by
  constructor
  · rintro ⟨k, hvisible, hinner⟩
    obtain ⟨j, rfl, hj⟩ := (visible_insert h).1 hvisible
    refine ⟨j, rfl, k, hj, fun j' y k' hj' => ?_⟩
    have hother := hinner _ y k' ((visible_insert h).2 ⟨j', rfl, hj'⟩)
    rwa [past_le_past] at hother
  · rintro ⟨j, rfl, k, hj, hinner⟩
    refine ⟨k, (visible_insert h).2 ⟨j, rfl, hj⟩, fun i' y k' hi' => ?_⟩
    obtain ⟨j', rfl, hj'⟩ := (visible_insert h).1 hi'
    rw [past_le_past]
    exact hinner j' y k' hj'

/-- **A frame may be taken out**: a reference outside denotes what it denotes without it. -/
theorem denotes_insert (h : Balanced es) :
    Denotes (A ++ (inFrame es ++ B)) (past A (inFrame es) t) i ↔
      ∃ j, i = past A (inFrame es) j ∧ Denotes (A ++ B) t j := by
  rcases Nat.lt_or_ge t A.length with hlt | hge
  · -- Before the frame the events are the same, and so are the places.
    rw [past, if_pos hlt]
    have hsame : ∀ C : List ScopeEvent, (A ++ C)[t]? = A[t]? ∧ (A ++ C).take t = A.take t :=
      fun C => ⟨List.getElem?_append_left hlt, List.take_append_of_le_length (Nat.le_of_lt hlt)⟩
    have hpast : ∀ j name y, Binds (A.take t) name j y → past A (inFrame es) j = j := by
      rintro j name y ⟨k, hj, -⟩
      have hj' := (List.getElem?_eq_some_iff.1 hj.1).1
      rw [List.length_take] at hj'
      exact if_pos (by omega)
    simp only [Denotes, (hsame _).1, (hsame _).2]
    constructor
    · rintro ⟨name, x, e, y, hget, hbinds⟩
      exact ⟨i, (hpast i name y hbinds).symm, name, x, e, y, hget, hbinds⟩
    · rintro ⟨j, rfl, name, x, e, y, hget, hbinds⟩
      rw [hpast j name y hbinds]
      exact ⟨name, x, e, y, hget, hbinds⟩
  · obtain ⟨b, rfl⟩ := Nat.exists_eq_add_of_le hge
    have hpast : past A (inFrame es) (A.length + b) = A.length + ((inFrame es).length + b) := by
      rw [past, if_neg (Nat.not_lt.2 hge)]
      omega
    have htake : (A ++ (inFrame es ++ B)).take (A.length + ((inFrame es).length + b)) =
        A ++ (inFrame es ++ B.take b) := by
      rw [List.take_length_add_append, List.take_length_add_append]
    have hget : (A ++ (inFrame es ++ B))[A.length + ((inFrame es).length + b)]? = B[b]? := by
      rw [List.getElem?_append_right (Nat.le_add_right _ _), Nat.add_sub_cancel_left,
        List.getElem?_append_right (Nat.le_add_right _ _), Nat.add_sub_cancel_left]
    have hget' : (A ++ B)[A.length + b]? = B[b]? := by
      rw [List.getElem?_append_right hge, Nat.add_sub_cancel_left]
    have htake' : (A ++ B).take (A.length + b) = A ++ B.take b :=
      List.take_length_add_append b
    simp only [Denotes, hpast, htake, hget, hget', htake', binds_insert h]
    constructor
    · rintro ⟨name, x, e, y, hat, j, rfl, hbinds⟩
      exact ⟨j, rfl, name, x, e, y, hat, hbinds⟩
    · rintro ⟨j, rfl, name, x, e, y, hat, hbinds⟩
      exact ⟨name, x, e, y, hat, j, rfl, hbinds⟩

theorem exists_of_inFrame {ms : List Mention} (h : evs.map mention = Mention.inFrame ms) :
    ∃ es, evs = inFrame es ∧ es.map mention = ms := by
  obtain ⟨e, rest, rfl, he, hrest⟩ := List.map_eq_cons_iff.1 h
  obtain ⟨es, last, rfl, hes, hlast⟩ := List.map_eq_append_iff.1 hrest
  obtain ⟨e', nothing, rfl, he', hnothing⟩ := List.map_eq_cons_iff.1 hlast
  obtain rfl := List.map_eq_nil_iff.1 hnothing
  cases e <;> cases he
  cases e' <;> cases he'
  exact ⟨es, rfl, hes⟩

theorem mention_inFrame (es : List ScopeEvent) :
    (inFrame es).map mention = Mention.inFrame (es.map mention) := by
  rw [inFrame, List.map_cons, List.map_append]
  rfl

theorem mention_declarations {names : List String} {xs : List VarId}
    (hlength : xs.length = names.length) :
    (declarations names xs).map mention = names.map .declare := by
  induction names generalizing xs with
  | nil => rfl
  | cons name names ih =>
    cases xs with
    | nil => cases hlength
    | cons x xs => exact congrArg _ (ih (Nat.succ.inj hlength))

/-- **What is declared in a frame matters nowhere else**: a reference outside denotes a declaration
outside, and the same one when something else is mentioned in the frame. -/
theorem Denotes.swap {ms ns before after : List Mention}
    (hevs : evs.map mention = before ++ (Mention.inFrame ms ++ after))
    (hevs' : evs'.map mention = before ++ (Mention.inFrame ns ++ after))
    (hms : ∀ es, es.map mention = ms → Balanced es)
    (hns : ∀ es, es.map mention = ns → Balanced es)
    (ht : Denotes evs (past before (Mention.inFrame ms) t) i) :
    ∃ j, i = past before (Mention.inFrame ms) j ∧
      Denotes evs' (past before (Mention.inFrame ns) t) (past before (Mention.inFrame ns) j) := by
  obtain ⟨A, rest, rfl, rfl, hrest⟩ := List.map_eq_append_iff.1 hevs
  obtain ⟨_, B, rfl, hes, rfl⟩ := List.map_eq_append_iff.1 hrest
  obtain ⟨A', rest', rfl, hA, hrest'⟩ := List.map_eq_append_iff.1 hevs'
  obtain ⟨_, B', rfl, hfs, hB⟩ := List.map_eq_append_iff.1 hrest'
  obtain ⟨es, rfl, hes'⟩ := exists_of_inFrame hes
  obtain ⟨fs, rfl, hfs'⟩ := exists_of_inFrame hfs
  have hpast : ∀ j, past (A.map mention) (Mention.inFrame ms) j = past A (inFrame es) j :=
    fun j => by rw [← hes, past_map]
  have hpast' : ∀ j, past (A.map mention) (Mention.inFrame ns) j = past A' (inFrame fs) j :=
    fun j => by rw [← hA, ← hfs, past_map]
  simp only [hpast, hpast'] at ht ⊢
  obtain ⟨j, rfl, hj⟩ := (denotes_insert (hms es hes')).1 ht
  have halike := List.rel_append (alike_of_mentions hA.symm) (alike_of_mentions hB.symm)
  exact ⟨j, rfl, (denotes_insert (hns fs hfs')).2 ⟨j, rfl, hj.of_alike halike⟩⟩

end ScopeEvent

end TreeMachine
