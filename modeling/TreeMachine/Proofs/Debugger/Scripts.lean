import TreeMachine.Proofs.Observation.Effects
import TreeMachine.Debugger.Dialogue

/-!
# Dialogues follow their scripts

What a line means to the debugger depends on the lines that were read before it, in this dialogue
and in earlier ones: a blank line stands for the last of them that was a command
(`Debugger.meaning`). A dialogue reads lines up to the first one that ends it (`Debugger.Script`),
and what it leaves behind is said by the meanings of these lines alone
(`Debugger.converse_follows`). The debugger remembers the last command of all dialogues so far,
whichever way they have ended (`Debugger.HasRead.lastCommand`).

The point is that the specification has no state. The meaning of a line is a function of the list of
the lines before it, the script is a way to split the input, and the trace level is a fold over
meanings; the debugger, which remembers one text and three more fields, is compared with them at the
end of each dialogue. `Debugger.HasRead` says which debuggers there are: the one at the start and
what dialogues and charges of steps and interrupts make of it, together with the lines that they
have read. Failed dialogues count as well, so lines that were read before a write failed are
remembered.

Prompts are counted in the sink by their origin and their text, so that an answer which happens to
contain the prompt is not one. For the number of prompts the sink must not be limited, and the input
must be readable; what a line that cannot be read does is left out.

The main result is `Debugger.dialogue_follows_script`.
-/

namespace TreeMachine

/-! ### Prompts -/

/-- A prompt of the debugger. -/
def Chunk.isPrompt (c : Chunk) : Bool :=
  c.origin = .debugger ∧ c.bytes.data = Debugger.prompt.toUTF8.data

/-- The number of prompts that were written. -/
def Sink.prompts (s : Sink) : Nat :=
  s.chunks.countP Chunk.isPrompt

namespace Sink

theorem prompts_append (s : Sink) (origin : Origin) (bytes : ByteArray) :
    (s.append origin bytes).prompts =
      s.prompts + if Chunk.isPrompt ⟨origin, bytes⟩ then 1 else 0 :=
  List.countP_cons

theorem prompts_append_prompt (s : Sink) :
    (s.append .debugger Debugger.prompt.toUTF8).prompts = s.prompts + 1 := by
  have hprompt : Chunk.isPrompt ⟨.debugger, Debugger.prompt.toUTF8⟩ = true :=
    decide_eq_true ⟨rfl, rfl⟩
  rw [prompts_append, hprompt]
  rfl

/-- A text that does not begin like a prompt is none. -/
theorem prompts_append_other (s : Sink) (origin : Origin) {text : String}
    (h : text.toList.head? ≠ some '(') : (s.append origin text.toUTF8).prompts = s.prompts := by
  have hne : text ≠ Debugger.prompt := by
    rintro rfl
    exact h rfl
  have hnot : Chunk.isPrompt ⟨origin, text.toUTF8⟩ = false :=
    decide_eq_false fun hp => hne (String.toByteArray_inj.1 (ByteArray.ext hp.2))
  rw [prompts_append, hnot]
  rfl

end Sink

/-- What a line says, if it can be read. -/
def Line.text? : Line → Option String
  | .text s => some s
  | .invalid _ => none

/-- How a command ends a dialogue, if it does. -/
def Command.resume? : Command → Option Resume
  | .continue | .step => some .run
  | .quit => some .quit
  | .help | .trace _ => none

namespace Debugger

/-! ### What lines mean -/

/-- Whether a text is a command. -/
def accepts (text : String) : Bool :=
  (Command.parse text).toOption.isSome

/-- The last of some lines that is a command by itself. -/
def remembered (lines : List String) : Option String :=
  ((lines.map Text.trim).filter accepts).getLast?

/-- What a line asks for, behind others: itself without the blanks around it or, when it is blank,
the last command. -/
def asks (past : List String) (line : String) : Option String :=
  if Text.trim line = "" then remembered past else some (Text.trim line)

/-- The command that a line means, behind others; nothing for a line that is none. -/
def meaning (past : List String) (line : String) : Option Command :=
  (asks past line).bind fun text => (Command.parse text).toOption

/-- The commands that lines mean, behind others, in order. -/
def commands (past : List String) : List String → List Command
  | [] => []
  | line :: lines => (meaning past line).toList ++ commands (past ++ [line]) lines

/-- The trace level after some commands. -/
def levelAfter (level : Nat) (cs : List Command) : Nat :=
  cs.foldl (fun level c => match c with
    | .trace change => changeLevel change level
    | _ => level) level

theorem not_accepts_empty : accepts "" = false :=
  rfl

theorem remembered_snoc (past : List String) (line : String) : remembered (past ++ [line]) =
    if accepts (Text.trim line) then some (Text.trim line) else remembered past := by
  simp only [remembered, List.map_append, List.filter_append, List.map_cons, List.map_nil,
    List.filter_cons, List.filter_nil]
  split
  · exact List.getLast?_concat
  · rw [List.append_nil]

/-- What is remembered is a command. -/
theorem accepts_of_remembered {lines : List String} {text : String}
    (h : remembered lines = some text) : accepts text = true :=
  (List.mem_filter.1 (List.mem_of_getLast? h)).2

theorem accepts_iff {text : String} : accepts text = true ↔ ∃ c, Command.parse text = .ok c := by
  unfold accepts
  cases Command.parse text with
  | error e => simp [Except.toOption]
  | ok c => simp [Except.toOption]

/-- A line that is no command is not remembered. -/
theorem remembered_of_meaning_none {past : List String} {line : String}
    (h : meaning past line = none) : remembered (past ++ [line]) = remembered past := by
  rw [remembered_snoc, if_neg]
  intro haccepts
  obtain ⟨c, hc⟩ := accepts_iff.1 haccepts
  by_cases hblank : Text.trim line = ""
  · rw [hblank, not_accepts_empty] at haccepts
    cases haccepts
  · simp [meaning, asks, hblank, hc, Except.toOption] at h

/-- What a line that is a command asks for is remembered. -/
theorem remembered_of_meaning_some {past : List String} {line : String} {c : Command}
    (h : meaning past line = some c) : remembered (past ++ [line]) = asks past line := by
  rw [remembered_snoc, asks]
  by_cases hblank : Text.trim line = ""
  · rw [if_pos hblank, hblank, not_accepts_empty]
    rfl
  · rw [if_neg hblank, if_pos]
    obtain ⟨text, htext, hparse⟩ := Option.bind_eq_some_iff.1 h
    rw [asks, if_neg hblank] at htext
    cases htext
    exact Option.isSome_of_eq_some hparse

/-! ### Replies -/

variable {d : Debugger} {past : List String} {line : String}

/-- The debugger remembers the last command of some lines. -/
def Remembers (d : Debugger) (past : List String) : Prop :=
  d.lastCommand = remembered past

theorem Remembers.effective? (h : d.Remembers past) (line : String) :
    d.effective? line = asks past line := by
  unfold Debugger.effective? asks
  rw [h]

/-- **The reply to a line** is the one to its meaning. A line that is no command changes nothing. -/
theorem Remembers.respond (h : d.Remembers past) (line : String) :
    (d.respond line).resume = (meaning past line).bind Command.resume? ∧
      (d.respond line).debugger =
        { d with
          singleStep := d.singleStep || meaning past line == some .step
          traceLevel := levelAfter d.traceLevel (meaning past line).toList
          lastCommand := remembered (past ++ [line]) } := by
  have hnone : meaning past line = none → d = { d with
      singleStep := d.singleStep || (none : Option Command) == some .step
      lastCommand := remembered (past ++ [line]) } := by
    intro hc
    rw [remembered_of_meaning_none hc, ← h]
    simp
  unfold Debugger.respond
  rw [h.effective?]
  cases htext : asks past line with
  | none =>
    have hc : meaning past line = none := by rw [meaning, htext, Option.bind_none]
    rw [hc]
    exact ⟨rfl, hnone hc⟩
  | some text =>
    dsimp only
    cases hparse : Command.parse text with
    | error e =>
      have hc : meaning past line = none := by
        rw [meaning, htext, Option.bind_some, hparse]
        rfl
      rw [hc]
      cases e <;> exact ⟨rfl, hnone hc⟩
    | ok c =>
      have hc : meaning past line = some c := by
        rw [meaning, htext, Option.bind_some, hparse]
        rfl
      rw [remembered_of_meaning_some hc, htext, hc]
      cases c <;> simp [obey, Command.resume?, levelAfter]

/-- A text begins like the first of its parts. -/
theorem head?_toList_append {s t : String} {c : Char} (h : s.toList.head? = some c) :
    (s ++ t).toList.head? = some c := by
  rw [String.toList_append, List.head?_append, h, Option.some_or]

/-- No reply is a prompt. -/
theorem prompts_respond (sink : Sink) (d : Debugger) (line : String) :
    (sink.append .debugger (d.respond line).text.toUTF8).prompts = sink.prompts := by
  refine Sink.prompts_append_other sink _ ?_
  have hbegins : ∀ (c : Char) {text : String}, text.toList.head? = some c → c ≠ '(' →
      text.toList.head? ≠ some '(' := fun _ _ h hne hc => hne (Option.some.inj (h.symm.trans hc))
  have husage : usage.toList.head? ≠ some '(' := by
    refine hbegins 'c' ?_ (by decide)
    unfold usage
    iterate 6 apply head?_toList_append
    decide
  unfold Debugger.respond
  split
  · exact husage
  · split
    · rename_i command _
      cases command with
      | trace change =>
        exact hbegins 't' (head?_toList_append (head?_toList_append (by decide))) (by decide)
      | help => exact husage
      | _ => exact nofun
    · exact hbegins 'i' (head?_toList_append (head?_toList_append (by decide))) (by decide)
    · exact hbegins 'u' (head?_toList_append (by decide)) (by decide)

/-- A line is prompted for once. -/
theorem prompts_exchange (sink : Sink) (d : Debugger) (line : String) :
    ((sink.append .debugger prompt.toUTF8).append .debugger (d.respond line).text.toUTF8).prompts =
      sink.prompts + 1 := by
  rw [prompts_respond, Sink.prompts_append_prompt]

/-! ### Dialogues -/

/-- What a dialogue reads of its input, behind the lines of earlier ones: it goes on behind lines
that do not end it, up to one that does, or to the end of the input if there is none. -/
structure Script (past input lines rest : List String) (ending : Option Command) : Prop where
  split : input = lines ++ rest
  goes_on : ∀ before line after, lines = before ++ line :: after → after ≠ [] ∨ ending = none →
    ∀ c, meaning (past ++ before) line = some c → c.resume? = none
  ends : ∀ c, ending = some c → c.resume? ≠ none ∧
    ∃ before last, lines = before ++ [last] ∧ meaning (past ++ before) last = some c
  all : ending = none → rest = []

theorem Script.nil (past : List String) : Script past [] [] [] none :=
  ⟨rfl, fun before line after h => by simp at h, nofun, fun _ => rfl⟩

/-- A line that ends the dialogue. -/
theorem Script.last {input : List String} {c : Command} (hc : meaning past line = some c)
    (hends : c.resume? ≠ none) : Script past (line :: input) [line] input (some c) := by
  refine ⟨rfl, fun before line' after h hafter => ?_, ?_, nofun⟩
  · rcases before with _ | ⟨b, before⟩
    · cases h
      rcases hafter with h | h
      · exact absurd rfl h
      · cases h
    · simp at h
  · rintro _ ⟨⟩
    exact ⟨hends, [], line, rfl, by rw [List.append_nil]; exact hc⟩

/-- A line behind which the dialogue goes on. -/
theorem Script.cons {input lines rest : List String} {ending : Option Command}
    (hc : ∀ c, meaning past line = some c → c.resume? = none)
    (h : Script (past ++ [line]) input lines rest ending) :
    Script past (line :: input) (line :: lines) rest ending := by
  obtain ⟨hsplit, hgoes, hends, hall⟩ := h
  refine ⟨by rw [hsplit]; rfl, fun before line' after hlines hafter => ?_, fun c hending => ?_,
    hall⟩
  · rcases before with _ | ⟨b, before⟩
    · cases hlines
      rw [List.append_nil]
      exact hc
    · obtain ⟨rfl, hlines'⟩ := List.cons.inj hlines
      have hrest := hgoes before line' after hlines' hafter
      rwa [List.append_assoc] at hrest
  · obtain ⟨hc', before, last, rfl, hlast⟩ := hends c hending
    rw [List.append_assoc] at hlast
    exact ⟨hc', line :: before, last, rfl, hlast⟩

/-- What a dialogue comes to in which some lines were read. -/
structure Ended (past : List String) (d : Debugger) (sink : Sink) (lines rest : List String)
    (ending : Option Command) (done : Dialogue) : Prop where
  result : done.result = .ok (if ending = some .quit then .quit else .run)
  input : done.input = rest.map .text
  debugger : done.debugger =
    { interrupted := d.interrupted
      singleStep := d.singleStep || ending == some .step
      traceLevel := levelAfter d.traceLevel (commands past lines)
      lastCommand := remembered (past ++ lines) }
  prompts : done.sink.prompts = sink.prompts + lines.length + if ending = none then 1 else 0
  sink : done.sink.limit = none

/-- At the end of the input the debugger prompts once more. -/
theorem prompts_end (sink : Sink) :
    ((sink.append .debugger prompt.toUTF8).append .debugger "\n".toUTF8).prompts =
      sink.prompts + 1 := by
  rw [Sink.prompts_append_other _ _ (by decide), Sink.prompts_append_prompt]

theorem converse_nil {sink : Sink} (hsink : sink.limit = none) (d : Debugger) :
    d.converse sink [] = ⟨d, (sink.append .debugger prompt.toUTF8).append .debugger "\n".toUTF8, [],
      .ok .run⟩ := by
  have hprompt : (sink.append .debugger prompt.toUTF8).limit = none := hsink
  simp only [converse, Sink.write_of_unlimited hsink, Sink.write_of_unlimited hprompt]

/-- A line of a dialogue with a sink that is not limited. -/
theorem converse_cons {sink : Sink} (hsink : sink.limit = none) (d : Debugger) (line : String)
    (input : List Line) :
    d.converse sink (.text line :: input) =
      let reply := d.respond line
      let sink := (sink.append .debugger prompt.toUTF8).append .debugger reply.text.toUTF8
      match reply.resume with
      | some resume => ⟨reply.debugger, sink, input, .ok resume⟩
      | none => reply.debugger.converse sink input := by
  have hprompt : (sink.append .debugger prompt.toUTF8).limit = none := hsink
  cases hresume : (d.respond line).resume with
  | none =>
    simp only [converse, Sink.write_of_unlimited hsink, Sink.write_of_unlimited hprompt, hresume]
  | some resume =>
    simp only [converse, Sink.write_of_unlimited hsink, Sink.write_of_unlimited hprompt, hresume]

/-- A line behind which the dialogue goes on changes the trace level at most. -/
theorem Ended.cons {d' : Debugger} {sink sink' : Sink} {lines rest : List String}
    {ending : Option Command} {done : Dialogue}
    (h : Ended (past ++ [line]) d' sink' lines rest ending done)
    (hinterrupted : d'.interrupted = d.interrupted) (hstep : d'.singleStep = d.singleStep)
    (hlevel : d'.traceLevel = levelAfter d.traceLevel (meaning past line).toList)
    (hprompts : sink'.prompts = sink.prompts + 1) :
    Ended past d sink (line :: lines) rest ending done := by
  refine ⟨h.result, h.input, ?_, ?_, h.sink⟩
  · rw [h.debugger, hinterrupted, hstep, hlevel, List.append_assoc]
    unfold levelAfter
    rw [← List.foldl_append]
    rfl
  · rw [h.prompts, hprompts, List.length_cons]
    omega

/-- **A dialogue follows its script**, by induction on the lines. -/
theorem converse_follows {sink : Sink} (hsink : sink.limit = none) (h : d.Remembers past)
    (input : List String) : ∃ lines rest ending, Script past input lines rest ending ∧
      Ended past d sink lines rest ending (d.converse sink (input.map .text)) := by
  induction input generalizing d past sink with
  | nil =>
    refine ⟨[], [], none, .nil past, ?_⟩
    rw [List.map_nil, converse_nil hsink]
    refine ⟨rfl, rfl, ?_, ?_, hsink⟩
    · rw [List.append_nil, ← h]
      simp [commands, levelAfter]
    · exact prompts_end sink
  | cons line input ih =>
    have hreply := prompts_exchange sink d line
    obtain ⟨hresume, hdebugger⟩ := h.respond line
    have hremembers : (d.respond line).debugger.Remembers (past ++ [line]) := by
      rw [hdebugger]
      rfl
    rw [List.map_cons, converse_cons hsink]
    cases hr : (meaning past line).bind Command.resume? with
    | none =>
      have hsink' : ((sink.append .debugger prompt.toUTF8).append .debugger
          (d.respond line).text.toUTF8).limit = none := hsink
      obtain ⟨lines, rest, ending, hscript, hended⟩ := ih hsink' hremembers
      have hgoes : ∀ c, meaning past line = some c → c.resume? = none := by
        intro c hc
        rw [hc] at hr
        exact hr
      refine ⟨line :: lines, rest, ending, hscript.cons hgoes, ?_⟩
      simp only [hresume, hr]
      refine hended.cons ?_ ?_ ?_ hreply
      · rw [hdebugger]
      · have hstep : (meaning past line == some .step) = false := by
          refine beq_eq_false_iff_ne.2 fun hc => ?_
          cases hgoes .step hc
        rw [hdebugger, hstep, Bool.or_false]
      · rw [hdebugger]
    | some resume =>
      obtain ⟨c, hc, hends⟩ := Option.bind_eq_some_iff.1 hr
      have hne : c.resume? ≠ none := by
        rw [hends]
        exact nofun
      refine ⟨[line], input, some c, .last hc hne, ?_⟩
      simp only [hresume, hr]
      refine ⟨?_, rfl, ?_, hreply, hsink⟩
      · cases c <;> cases hends <;> rfl
      · rw [hdebugger, hc]
        simp [commands, hc]

/-! ### What the debugger remembers -/

/-- A debugger that was in use, with all lines that it has read so far. Any dialogue counts, also
one whose sink is limited or whose input has lines that cannot be read. -/
inductive HasRead : List String → Debugger → Prop
  | start (traceLevel : Nat) (interrupted : Bool) : HasRead [] (.start traceLevel interrupted)
  | interrupt {past : List String} {d : Debugger} (h : HasRead past d) : HasRead past d.interrupt
  | stepTaken {past : List String} {d : Debugger} (h : HasRead past d) : HasRead past d.stepTaken
  | interact {past : List String} {d : Debugger} (h : HasRead past d) (sink : Sink)
      {input read : List Line} (hread : input = read ++ (d.interact sink input).input) :
      HasRead (past ++ read.filterMap Line.text?) (d.interact sink input).debugger

/-- What a dialogue leaves of its input is the end of it, and the last command that was read is
remembered, whichever way the dialogue ends. -/
theorem converse_remembers (h : d.Remembers past) (sink : Sink) (input : List Line) :
    ∃ read, input = read ++ (d.converse sink input).input ∧
      (d.converse sink input).debugger.Remembers (past ++ read.filterMap Line.text?) := by
  induction input generalizing d past sink with
  | nil =>
    refine ⟨[], ?_⟩
    rw [List.filterMap_nil, List.append_nil]
    unfold converse
    split
    · exact ⟨rfl, h⟩
    · split <;> exact ⟨rfl, h⟩
  | cons line input ih =>
    unfold converse
    split
    · refine ⟨[], rfl, ?_⟩
      rw [List.filterMap_nil, List.append_nil]
      exact h
    · cases line with
      | invalid bytes =>
        refine ⟨[.invalid bytes], rfl, ?_⟩
        rw [List.filterMap_cons_none rfl, List.filterMap_nil, List.append_nil]
        exact h
      | text text =>
        have hremembers : (d.respond text).debugger.Remembers (past ++ [text]) := by
          rw [(h.respond text).2]
          rfl
        dsimp only
        split
        · exact ⟨[.text text], rfl, hremembers⟩
        · split
          · exact ⟨[.text text], rfl, hremembers⟩
          · rename_i sink' _ _ _
            obtain ⟨read, hread, hrest⟩ := ih hremembers sink'
            rw [List.append_assoc] at hrest
            exact ⟨.text text :: read, congrArg (.text text :: ·) hread, hrest⟩

theorem Remembers.stepTaken (h : d.Remembers past) : d.stepTaken.Remembers past := by
  unfold Debugger.stepTaken
  split <;> exact h

/-- **The debugger remembers the last command** of all that it has read, by induction on its use. -/
theorem HasRead.lastCommand (h : HasRead past d) : d.Remembers past := by
  induction h with
  | start traceLevel interrupted => rfl
  | interrupt _ ih => exact ih
  | stepTaken _ ih => exact ih.stepTaken
  | @interact past d _ sink input read hread ih =>
    have henter : d.enter.Remembers past := ih
    obtain ⟨read', hread', hremembers⟩ := converse_remembers henter sink input
    cases List.append_cancel_right (hread'.symm.trans hread)
    exact hremembers

/-- Each dialogue is one more use. -/
theorem HasRead.exists_interact (h : HasRead past d) (sink : Sink) (input : List Line) :
    ∃ read, input = read ++ (d.interact sink input).input ∧
      HasRead (past ++ read.filterMap Line.text?) (d.interact sink input).debugger := by
  have henter : d.enter.Remembers past := h.lastCommand
  obtain ⟨read, hread, -⟩ := converse_remembers henter sink input
  exact ⟨read, hread, h.interact sink hread⟩

/-- A line that is no command leaves the debugger as it is. -/
theorem respond_rejected (h : Text.trim line = "" ∧ d.lastCommand = none ∨
      Text.trim line ≠ "" ∧ ∃ e, Command.parse (Text.trim line) = .error e) :
    (d.respond line).resume = none ∧ (d.respond line).debugger = d := by
  unfold Debugger.respond effective?
  rcases h with ⟨hblank, hnone⟩ | ⟨hnot, e, he⟩
  · simp [hblank, hnone]
  · simp only [if_neg hnot, he]
    cases e <;> exact ⟨rfl, rfl⟩

/-- **A dialogue follows its script.** In whatever state the debugger is, a dialogue with input that
can be read, and with a sink that is not limited, reads lines up to the first one that means to
continue, to step or to quit, or all of them; it prompts once for each, and once more at the end of
the input. It ends the run only when told to quit, and leaves neither an interrupt nor single
stepping behind, unless the last line means to step. The trace level is as the lines have set it,
and the last command that was read is remembered, which always is a command. A line that is none
changes nothing but what is written. -/
theorem dialogue_follows_script (h : HasRead past d) {sink : Sink} (hsink : sink.limit = none)
    (input : List String) :
    (∃ lines rest ending, Script past input lines rest ending ∧
      (d.interact sink (input.map .text)).result =
        .ok (if ending = some .quit then .quit else .run) ∧
      (d.interact sink (input.map .text)).input = rest.map .text ∧
      (d.interact sink (input.map .text)).debugger =
        { interrupted := false
          singleStep := ending == some .step
          traceLevel := levelAfter d.traceLevel (commands past lines)
          lastCommand := remembered (past ++ lines) } ∧
      (d.interact sink (input.map .text)).sink.prompts =
        sink.prompts + lines.length + if ending = none then 1 else 0) ∧
    (d.lastCommand = remembered past ∧
      ∀ text, d.lastCommand = some text → ∃ c, Command.parse text = .ok c) ∧
    ∀ (now : Debugger) (line : String) (more : List Line),
      Text.trim line = "" ∧ now.lastCommand = none ∨
        Text.trim line ≠ "" ∧ (∃ e, Command.parse (Text.trim line) = .error e) →
      now.converse sink (.text line :: more) =
        now.converse ((sink.append .debugger prompt.toUTF8).append .debugger
          (now.respond line).text.toUTF8) more := by
  have hremembers := h.lastCommand
  refine ⟨?_, ⟨hremembers, fun text htext => ?_⟩, fun now line more hrejected => ?_⟩
  · have henter : d.enter.Remembers past := hremembers
    obtain ⟨lines, rest, ending, hscript, hended⟩ := converse_follows hsink henter input
    exact ⟨lines, rest, ending, hscript, hended.result, hended.input, hended.debugger,
      hended.prompts⟩
  · exact accepts_iff.1 (accepts_of_remembered (hremembers.symm.trans htext))
  · obtain ⟨hresume, hdebugger⟩ := respond_rejected hrejected
    rw [converse_cons hsink]
    simp only [hresume, hdebugger]

/-- The debugger after a first dialogue that has set the trace level and asked for a step, and after
this step. -/
def stepping : Debugger :=
  ((start 0 true).interact (.ofLimit none) [.text "trace 7\n", .text "st\n"]).debugger.stepTaken

theorem stepping_hasRead : HasRead ["trace 7\n", "st\n"] stepping := by
  obtain ⟨read, hread, h⟩ := (HasRead.start 0 true).exists_interact (.ofLimit none)
    [.text "trace 7\n", .text "st\n"]
  have hrest : (((start 0 true).interact (.ofLimit none)
      [.text "trace 7\n", .text "st\n"]).input).length = 0 := by decide +kernel
  rw [List.length_eq_zero_iff.1 hrest, List.append_nil] at hread
  rw [← hread] at h
  exact h.stepTaken

/-- In its second dialogue the blank line repeats the step of the first one, and the line behind it
is left for the third. -/
theorem dialogue_follows_script_stepping :
    HasRead ["trace 7\n", "st\n"] stepping ∧ (Sink.ofLimit none).limit = none ∧
      Script ["trace 7\n", "st\n"] ["bogus\n", " \n", "c\n"] ["bogus\n", " \n"] ["c\n"]
        (some .step) ∧
      (stepping.interact (.ofLimit none) (["bogus\n", " \n", "c\n"].map .text)).result =
        .ok .run ∧
      (stepping.interact (.ofLimit none) (["bogus\n", " \n", "c\n"].map .text)).input =
        ["c\n"].map .text ∧
      (stepping.interact (.ofLimit none) (["bogus\n", " \n", "c\n"].map .text)).debugger =
        ⟨false, true, 7, some "st"⟩ ∧
      (stepping.interact (.ofLimit none) (["bogus\n", " \n", "c\n"].map .text)).sink.prompts =
        2 := by
  have hsink : (Sink.ofLimit none).limit = none := rfl
  obtain ⟨⟨lines, rest, ending, hscript, hresult, hinput, hdebugger, hprompts⟩, -, -⟩ :=
    dialogue_follows_script stepping_hasRead hsink ["bogus\n", " \n", "c\n"]
  have hcomes : (stepping.interact (.ofLimit none)
      (["bogus\n", " \n", "c\n"].map .text)).debugger = ⟨false, true, 7, some "st"⟩ := by
    decide +kernel
  have hcount : (stepping.interact (.ofLimit none)
      (["bogus\n", " \n", "c\n"].map .text)).sink.prompts = 2 := by decide +kernel
  obtain rfl : ending = some .step := by
    rw [hcomes] at hdebugger
    exact beq_iff_eq.1 (congrArg Debugger.singleStep hdebugger).symm
  have hlength : lines.length = 2 := by
    rw [hcount] at hprompts
    exact (hprompts.trans (Nat.zero_add _)).symm
  have hsplit : ["bogus\n", " \n"] ++ ["c\n"] = lines ++ rest := hscript.split
  obtain ⟨rfl, rfl⟩ := List.append_inj hsplit hlength.symm
  exact ⟨stepping_hasRead, rfl, hscript, hresult, hinput, hcomes, hcount⟩

end Debugger

end TreeMachine
