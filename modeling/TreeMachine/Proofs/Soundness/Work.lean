import TreeMachine.Proofs.Soundness.Shape
import TreeMachine.Proofs.Soundness.Values

/-!
# Sound units of work

A unit of work is sound when it does not fail for a defect and leaves an activation for which what
it demands makes sense (`Work.Sound`). Work at a stage that there is, and work with an operand that
there is, is sound when what is done then is.

What makes sense depends on the demand (`Frame.Meets`). To go on, an activation needs its shape; to
have its statement finished, it has to be done with it; to be left, it needs a sound value for the
caller; and to make a call, it needs the callee and the arguments among its operands and has to miss
one operand without them. The last is the interface to calls: the step takes these operands off, and
whatever the call comes to, the activation is given a value some time later or is never resumed.

Complaints and failures of a channel are not defects, and nothing is required of the activation that
they leave behind.
-/

namespace TreeMachine

/-- A fault that is about the machine itself. -/
def Fault.IsInternal : Fault → Prop
  | .internal .. => True
  | .user .. | .channel _ => False

/-- What is demanded makes sense: the activation has the shape to go on, or is done with its
statement, or leaves a sound value, or has the operands of a call and then misses one. -/
def Frame.Meets (p : Program) (heap : Heap) (f : Frame) : Demand → Prop
  | .pending | .jumped => f.Shaped p
  | .complete => f.Through p
  | .leave v => v.Sound p heap
  | .call n => ∃ args callee rest, n = args.length + 1 ∧ f.operands = args ++ callee :: rest ∧
      Frame.Awaits p { f with operands := rest }

/-- **Sound work**: no defect, and an activation that holds sound values and meets what is
demanded. -/
def Work.Sound (p : Program) (heap : Heap) (w : Work) : Prop :=
  match w.2 with
  | .error e => ¬e.IsInternal
  | .ok d => w.1.Holds p heap ∧ w.1.Meets p heap d

namespace Frame

variable {p : Program} {heap : Heap} {f : Frame} {i : StmtId}

theorem sound_complain (f : Frame) (place : Place) (c : Complaint) :
    Work.Sound p heap (f.complain place c) :=
  id

theorem sound_pending (hshape : f.Shaped p) (hholds : f.Holds p heap) :
    Work.Sound p heap (f.demand .pending) :=
  ⟨hholds, hshape⟩

/-- The stage of a node is one with the number of operands that there is. -/
theorem sound_atStage {σ : Type} {stage : Option σ} {held : σ → Nat}
    (hheld : stage.map held = some f.operands.length) {kind : StmtKind} {work : Frame → σ → Work}
    (hwork : ∀ st, stage = some st → f.operands.length = held st → Work.Sound p heap (work f st)) :
    Work.Sound p heap (f.atStage i kind stage work) := by
  cases stage with
  | none => cases hheld
  | some st => exact hwork st rfl (Option.some.inj hheld).symm

/-- The top operand is there, and it is sound. -/
theorem sound_pop (hholds : f.Holds p heap) (hlength : f.operands.length ≠ 0) (place : Place)
    {next : Value → Frame → Work}
    (hnext : ∀ v rest, f.operands = v :: rest → v.Sound p heap →
      Frame.Holds p heap { f with operands := rest } →
      Work.Sound p heap (next v { f with operands := rest })) :
    Work.Sound p heap (f.pop place next) := by
  unfold pop
  split
  · rename_i hnil
    exact absurd (congrArg List.length hnil) hlength
  · rename_i v rest hcons
    refine hnext v rest hcons (hholds.operands v (hcons ▸ List.mem_cons_self)) ?_
    exact hholds.take fun w hw => hcons ▸ List.mem_cons_of_mem v hw

end Frame

end TreeMachine
