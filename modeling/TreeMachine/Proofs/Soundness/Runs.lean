import TreeMachine.Proofs.Linking.Programs
import TreeMachine.Proofs.Run.Turns
import TreeMachine.Proofs.Soundness.Steps

/-!
# Defects are unreachable

The context of a machine stays reachable while the machine runs, and so no run of a session fails
for a defect (`Session.run_sound`). The last statement is about single steps: those of every context
that a task of a linked program can get into, whoever takes the steps and whenever the heap is
collected.

A defect is a failure that is no fault of the program: an id that is in no table, a stage that its
kind does not have, an operand or a remembered value that is missing, a jump whose label cannot be
reached. The step function checks for all of these, since it works on tables and stacks that may be
anything, and it reports them apart from complaints. That they are unreachable is what makes the
checks superfluous for linked programs.

The statement also says that everything a context refers to is there (`Context.Grounded`): the nodes
that its activations are at or have to come back to, functions and scopes, objects, and the entries
of the free list. These are the ids that a debugger or a trace would look up.

There is one restriction. A loop over a collection has one variable and one iterator
(`Program.SimpleLoops`); a definition may have other ones, and linking accepts it, but the step
function calls a step of such a loop a defect. For programs without them nothing else is assumed,
neither that a run ends nor that it is not interrupted.
-/

namespace TreeMachine

/-- A result that is no failure for a defect. -/
def Sane {α : Type} (r : Except Fault α) : Prop :=
  ∀ e, r = .error e → ¬e.IsInternal

theorem sane_ok {α : Type} (a : α) : Sane (.ok a) := by
  intro e he
  cases he

namespace Machine

variable {p : Program} {m : Machine}

/-- A turn is no failure for a defect, and leaves a reachable context when it is none. -/
theorem turn_sound (hp : p.WellFormed) (hloops : p.SimpleLoops) (threshold : Nat)
    (hm : m.context.Reachable p) :
    Sane (m.turn p threshold).2 ∧
      ∀ t, (m.turn p threshold).2 = .ok t → (m.turn p threshold).1.context.Reachable p := by
  have hmoves := turn_moves p threshold m
  generalize m.turn p threshold = r at hmoves ⊢
  cases hmoves with
  | unattended => exact ⟨fun e he => by cases he; exact id, nofun⟩
  | quits hcontext => exact ⟨sane_ok _, fun _ _ => hcontext ▸ hm⟩
  | fails level sink hresult =>
    have hstep := (hm.sound hp hloops).step hp hloops level sink
    unfold Effect.Sound at hstep
    rw [hresult] at hstep
    exact ⟨fun e he => by cases he; exact hstep, nofun⟩
  | jumps level sink hresult hcontext =>
    exact ⟨sane_ok _, fun _ _ => hcontext ▸ .step hm hresult⟩
  | charges level sink hresult _ hc' hcontext =>
    have hcharged := (Context.Reachable.step hm hresult).charge
    rw [← hc'] at hcharged
    refine ⟨sane_ok _, fun _ _ => ?_⟩
    rcases hcontext with hcontext | hcontext
    · exact hcontext ▸ hcharged
    · exact hcontext ▸ hcharged.collect

/-- **A run** does not end with a defect, and leaves a reachable context unless it fails. -/
theorem run_sound (hp : p.WellFormed) (hloops : p.SimpleLoops) {threshold fuel : Nat}
    {budget : Option Nat} {r : Machine × Except Fault Outcome} (hm : m.context.Reachable p)
    (h : m.run p threshold fuel budget = some r) :
    Sane r.2 ∧ ∀ o, r.2 = .ok o → r.1.context.Reachable p := by
  induction fuel generalizing m budget with
  | zero => cases h
  | succ fuel ih =>
    unfold run at h
    split at h
    · cases h
      exact ⟨sane_ok _, fun _ _ => hm⟩
    · split at h
      · cases h
        exact ⟨sane_ok _, fun _ _ => hm⟩
      · obtain ⟨hsane, hnext⟩ := turn_sound hp hloops threshold hm
        rcases hturn : m.turn p threshold with ⟨m', t⟩
        rw [hturn] at h hsane hnext
        cases t with
        | error e =>
          cases h
          exact ⟨fun e he => by cases he; exact hsane _ rfl, fun o ho => by cases ho⟩
        | ok t =>
          have hm' := hnext t rfl
          cases t with
          | quit =>
            cases h
            exact ⟨sane_ok _, fun _ _ => hm'⟩
          | free => exact ih hm' h
          | charged => exact ih hm' h

theorem runSlices_sound (hp : p.WellFormed) (hloops : p.SimpleLoops)
    {threshold slice sliceFuel fuel : Nat} {r : Machine × Except Fault Outcome}
    (hm : m.context.Reachable p) (h : m.runSlices p threshold slice sliceFuel fuel = some r) :
    Sane r.2 := by
  induction fuel generalizing m with
  | zero => cases h
  | succ fuel ih =>
    unfold runSlices at h
    split at h
    · rename_i m' hrun
      exact ih ((run_sound hp hloops hm hrun).2 _ rfl) h
    · exact (run_sound hp hloops hm h).1

theorem drive_sound (hp : p.WellFormed) (hloops : p.SimpleLoops) {threshold slice fuel : Nat}
    {r : Machine × Except Fault Outcome} (hm : m.context.Reachable p)
    (h : m.drive p threshold slice fuel = some r) : Sane r.2 := by
  unfold drive at h
  split at h
  · exact (run_sound hp hloops hm h).1
  · exact runSlices_sound hp hloops hm h

end Machine

namespace Session

variable {p : Program}

/-- Starting a task does not fail for a defect, and gives a reachable context. -/
theorem task_sound (hp : p.WellFormed) {t : Task} (ht : t ∈ p.tasks) (sink : Sink) :
    Sane (t.start p sink).result ∧
      ((t.start p sink).result = .ok () → (t.start p sink).context.Reachable p) := by
  rcases List.mem_append.1 ht with ht | ht
  · obtain ⟨m, hm, rfl⟩ := List.mem_map.1 ht
    exact ⟨nofun, fun _ => .forModule (Array.mem_toList_iff.1 hm)⟩
  · obtain ⟨id, hid, rfl⟩ := List.mem_map.1 ht
    have hlt := hp.entry id (Option.mem_toList.1 hid)
    have hsound := Context.Sound.startEntry hp
      ⟨p.functions[id.index], Array.getElem?_eq_getElem hlt⟩ sink
    refine ⟨fun e he => ?_, fun hok => .startEntry hok⟩
    have he' : ((Context.idle Program.rootScope).startEntry p id sink).result = .error e := he
    unfold Effect.Sound at hsound
    rw [he'] at hsound
    exact hsound

theorem runTasks_sound (hp : p.WellFormed) (hloops : p.SimpleLoops) {fuel : Nat} {ts : List Task}
    (hts : ts ⊆ p.tasks) {s : Session} {r : Session × Except Fault Status}
    (h : s.runTasks p fuel ts = some r) : Sane r.2 := by
  induction ts generalizing s with
  | nil =>
    cases h
    exact nofun
  | cons t ts ih =>
    obtain ⟨hsane, hreach⟩ := task_sound hp (hts List.mem_cons_self) s.sink
    unfold runTasks at h
    dsimp only at h
    cases hr : (t.start p s.sink).result with
    | error e =>
      rw [hr] at h
      cases h
      rw [hr] at hsane
      exact fun e he => by cases he; exact hsane _ rfl
    | ok u =>
      rw [hr] at h
      dsimp only at h
      split at h
      · cases h
      · rename_i m e hdrive
        cases h
        have hfail := Machine.drive_sound hp hloops (hreach hr) hdrive
        exact fun e he => by cases he; exact hfail _ rfl
      · cases h
        exact nofun
      · exact ih (fun x hx => hts (List.mem_cons_of_mem _ hx)) h

/-- **No session ends with a defect**, whatever its configuration, its input and its sink. -/
theorem run_sound (hp : p.WellFormed) (hloops : p.SimpleLoops) {fuel : Nat} {s : Session}
    {r : Session × Except Fault Status} (h : s.run p fuel = some r) : Sane r.2 := by
  unfold run at h
  split at h
  · exact runTasks_sound hp hloops (fun _ ht => ht) h
  · cases h
    exact nofun

end Session

/-- **Defects are unreachable.** Let a program be linked, with one index variable and one iterator
for every loop over a collection. Whatever contexts its tasks get into, by steps and collections in
any order, the next step does not fail for a defect, whether it is traced or not and whatever the
sink. All that such a context refers to is there, and all that the tables refer to. -/
theorem defects_unreachable {d : Source.Program} {p : Program} (hlink : Program.link d = .ok p)
    (hloops : p.SimpleLoops) {c : Context} (hc : c.Reachable p) :
    (∀ traceLevel sink place defect,
      (c.step p traceLevel sink).result ≠ .error (.internal place defect)) ∧
    c.Grounded p ∧ p.WellFormed := by
  have hp := Program.wellFormed_of_link hlink
  have hsound := hc.sound hp hloops
  refine ⟨fun traceLevel sink place defect hfail => ?_, hsound.grounded, hp⟩
  have hstep := hsound.step hp hloops traceLevel sink
  unfold Effect.Sound at hstep
  rw [hfail] at hstep
  exact hstep trivial

/-- A definition with a call, a jump out of an arm and an allocation in a loop over a range. -/
def Source.Program.skipping : Source.Program where
  modules := [⟨"m",
    [.mk "inc" ["x"] [] [.return (some (.call (.function "+") [.var "x", .scalar (.int 1)]))]],
    [.forall ["i"] [.call (.function "range") [.scalar (.int 0), .scalar (.int 3)]]
      [.select (.call (.function "inc") [.var "i"])
        [.mk [.scalar (.int 2)] [.goto "skip"],
          .mk [] [.expr (.call (.function "range") [.var "i", .scalar (.int 9)])]],
        .label "skip"]]⟩]
  entry := none

/-- Whether the run of the first module of a definition is suspended after some steps, in a state
that passes a test. -/
def Program.suspendsAfter (d : Source.Program) (fuel steps : Nat)
    (test : Program → Machine → Bool) : Bool :=
  match Program.link d with
  | .ok p =>
    match p.modules[0]? with
    | some m =>
      match Machine.run p 1 fuel (some steps) ⟨.forModule m, .start 0 false, [], .ofLimit none⟩ with
      | some (m', .ok .suspended) => test p m'
      | _ => false
    | none => false
  | .error _ => false

theorem Program.exists_of_suspendsAfter {d : Source.Program} {fuel steps : Nat}
    {test : Program → Machine → Bool} (h : suspendsAfter d fuel steps test = true) :
    ∃ (p : Program) (m : Module) (m' : Machine), Program.link d = .ok p ∧
      p.modules[0]? = some m ∧
      Machine.run p 1 fuel (some steps) ⟨.forModule m, .start 0 false, [], .ofLimit none⟩ =
        some (m', .ok .suspended) ∧ test p m' = true := by
  unfold suspendsAfter at h
  split at h
  · rename_i p hlink
    split at h
    · rename_i m hm
      split at h
      · rename_i m' hrun
        exact ⟨p, m, m', hlink, hm, hrun, h⟩
      · cases h
    · cases h
  · cases h

/-- After fifty steps, with a collection after every allocation, the loop has jumped out of an arm,
and the next step is no defect. -/
theorem defects_unreachable_skipping : ∃ p, Program.link .skipping = .ok p ∧ p.SimpleLoops ∧
    ∃ c : Context, c.Reachable p ∧ c.steps = 50 ∧ (∀ traceLevel sink place defect,
      (c.step p traceLevel sink).result ≠ .error (.internal place defect)) ∧
      c.Grounded p ∧ p.WellFormed := by
  have hruns : Program.suspendsAfter .skipping 100 50 (fun p m => decide p.SimpleLoops &&
      m.context.steps == 50) = true := by decide +kernel
  obtain ⟨p, m, m', hlink, hm, hrun, htest⟩ := Program.exists_of_suspendsAfter hruns
  obtain ⟨hloops, hsteps⟩ := Bool.and_eq_true_iff.1 htest
  have hloops := of_decide_eq_true hloops
  have hreach := (Machine.run_sound (Program.wellFormed_of_link hlink) hloops
    (.forModule (Array.mem_of_getElem? hm)) hrun).2 _ rfl
  exact ⟨p, hlink, hloops, m'.context, hreach, beq_iff_eq.1 hsteps,
    defects_unreachable hlink hloops hreach⟩

end TreeMachine
