import TreeMachine.Proofs.Execution.Frame
import TreeMachine.Proofs.Snapshot.Values

/-!
# Snapshots of contexts

A context is restored from the text of any of its snapshots if each of its doubles is kept, and from
none of them if one of its doubles is infinite or NaN (`Context.restores`,
`Context.IsSnapshot.ofText?`). This is shown part by part: an environment, an activation, an object,
an entry and the heap are restored with their parts.

An environment is a map, and a snapshot of it is an array of pairs in any order (`Env.IsSnapshot`):
the writer goes through the map as it happens to be laid out. So a context has many snapshots, one
for each way to order the pairs of each of its environments, and what is shown of one is shown of
all of them. The reader puts the pairs into the empty map one after the other. Since their keys are
different, the order does not matter to what is found under a key (`Env.lookup_perm`), and an
environment is the map of its pairs whichever way they are written (`Env.ofList_of_perm`). For a
text in which a key occurs twice this would be false; no environment is written as one.

Lists of frames, operands and waiting statements have an order that is kept. The reader has no
freedom: its result is a function of the text, so different snapshots of a context are read as the
same context.

All numbers of a context have words of their own size (`Context.Fits`): ids, stages and positions in
the heap have 32 bits, counters have 64. A number that does not fit is written in full and then
refused by the reader, and contexts with such numbers are left out. So is the history of the heap. A
context is restored with its free list and its generations, and no more is needed for its handles to
mean what they did.
-/

namespace TreeMachine

/-! ### Doubles and words -/

/-- The doubles of an environment. -/
def Env.floats (env : Env) : List Float :=
  env.entries.flatMap fun e => e.2.floats

/-- The doubles of an activation. -/
def Frame.floats (f : Frame) : List Float :=
  f.env.floats ++ f.operands.flatMap Value.floats

/-- The doubles of an object. -/
def Object.floats (o : Object) : List Float :=
  o.fields.flatMap Value.floats

/-- The doubles of an entry of the heap. -/
def Entry.floats (e : Entry) : List Float :=
  e.object.elim [] Object.floats

/-- The doubles of a heap. -/
def Heap.floats (heap : Heap) : List Float :=
  heap.entries.toList.flatMap Entry.floats

/-- The doubles of a context. -/
def Context.floats (c : Context) : List Float :=
  c.frames.flatMap Frame.floats ++ c.heap.floats

/-- The numbers of an environment have 32 bits. -/
def Env.Fits (env : Env) : Prop :=
  ∀ e ∈ env.entries, e.1.index ≤ Word.max32 ∧ e.2.Fits

/-- The numbers of an activation have 32 bits. -/
structure Frame.Fits (f : Frame) : Prop where
  env : f.env.Fits
  waiting : ∀ s ∈ f.waiting, s.index ≤ Word.max32
  resumes : ∀ n ∈ f.resumes, n ≤ Word.max32
  suspended : ∀ e ∈ f.suspended, e.1.index ≤ Word.max32 ∧ e.2 ≤ Word.max32
  operands : ∀ v ∈ f.operands, v.Fits
  stmt : ∀ s, f.stmt = some s → s.index ≤ Word.max32
  expr : ∀ e, f.expr = some e → e.index ≤ Word.max32
  stage : f.stage ≤ Word.max32
  exprStage : f.exprStage ≤ Word.max32
  function : ∀ id, f.function = some id → id.index ≤ Word.max32
  scope : f.scope.index ≤ Word.max32

/-- The numbers of an object have 32 bits. -/
def Object.Fits (o : Object) : Prop :=
  ∀ v ∈ o.fields, v.Fits

/-- The numbers of a heap have 32 bits, and the one that counts allocations has 64. -/
structure Heap.Fits (heap : Heap) : Prop where
  objects : ∀ e ∈ heap.entries, ∀ o, e.object = some o → o.Fits
  free : ∀ i ∈ heap.free, i ≤ Word.max32
  allocated : heap.allocated ≤ Word.max64

/-- **The numbers of a context** have 32 bits, and those that count steps and allocations have
64. -/
structure Context.Fits (c : Context) : Prop where
  frames : ∀ f ∈ c.frames, f.Fits
  heap : c.heap.Fits
  steps : c.steps ≤ Word.max64

open Json (Restores Keeps)
open Json.Value (reads back backFields nullable? listOf? reads_object reads_listOf? fields_of_reads
  exists_backFields)

/-! ### Pairs and parts that may be absent -/

namespace Json

variable {α β γ : Type} {levels : Nat} {read : Value → Option α} {v : Value} {floats : List Float}
  {a : α}

/-- What is restored comes back at all. -/
theorem Restores.back (h : Restores levels read v floats a) (hkept : ∀ x ∈ floats, Keeps x) :
    ∃ v', v.back levels = some v' := by
  obtain ⟨v', hv, -⟩ := Value.back_of_reads (h.kept hkept)
  exact ⟨v', hv⟩

/-- Only which doubles there are matters. -/
theorem Restores.of_mem (h : Restores levels read v floats a) {floats' : List Float}
    (hmem : ∀ x, x ∈ floats' ↔ x ∈ floats) : Restores levels read v floats' a where
  kept hkept := h.kept fun x hx => hkept x ((hmem x).2 hx)
  finite a' ha' x hx := h.finite a' ha' x ((hmem x).1 hx)

/-- A part that may be absent is restored, unless it comes back as null. -/
theorem Restores.nullable {write : β → Value} {get : β → α} {doubles : β → List Float}
    {o : Option β} (hnull : ∀ b, o = some b → (write b).back levels ≠ some .null)
    (h : ∀ b, o = some b → Restores levels read (write b) (doubles b) (get b)) :
    Restores levels (nullable? read) (.ofOption write o) (o.elim [] doubles) (o.map get) := by
  cases o with
  | none => exact .of_reads rfl
  | some b =>
    -- A part that came back as null would be read as one that is absent.
    refine (h b rfl).map some ?_
    rw [Value.ofOption, reads, reads]
    cases hb : (write b).back levels with
    | none => rfl
    | some v' =>
      cases v' with
      | null => exact absurd hb (hnull b rfl)
      | _ => rfl

/-! ### Fields -/

variable {fs fs' : Fields Value} {key : String}

/-- **An object is restored** if all its fields come back and the reader makes of them what it has
to. -/
theorem Restores.object
    (hback : (∀ x ∈ floats, Keeps x) → fs.Forall fun f => ∃ v', f.2.back levels = some v')
    (hkept : (∀ x ∈ floats, Keeps x) → ∀ fs', backFields levels fs = some fs' →
      read (.object fs') = some a)
    (hfinite : ∀ fs', backFields levels fs = some fs' → ∀ a', read (.object fs') = some a' →
      ∀ x ∈ floats, IsFinite x) : Restores (levels + 1) read (.object fs) floats a := by
  constructor
  · intro h
    obtain ⟨fs', hfs⟩ := exists_backFields (List.forall_iff_forall_mem.1 (hback h))
    rw [reads_object hfs]
    exact hkept h fs' hfs
  · intro a' ha'
    obtain ⟨fs', hfs, ha'⟩ := fields_of_reads ha'
    exact hfinite fs' hfs a' ha'

theorem Restores.required (h : Restores levels read v floats a)
    (hfs : backFields levels fs = some fs') (hlookup : fs.lookup? key = some (some v))
    (hkept : ∀ x ∈ floats, Keeps x) : fs'.required key read = some a := by
  rw [Fields.required_back hfs hlookup]
  exact h.kept hkept

theorem Restores.nullable_field {o : Option α}
    (h : Restores levels (nullable? read) v floats o) (hfs : backFields levels fs = some fs')
    (hlookup : fs.lookup? key = some (some v)) (hkept : ∀ x ∈ floats, Keeps x) :
    fs'.nullable key read = some o := by
  rw [Fields.nullable_back hfs hlookup]
  exact h.kept hkept

theorem Restores.finite_required (h : Restores levels read v floats a)
    (hfs : backFields levels fs = some fs') (hlookup : fs.lookup? key = some (some v)) {a' : α}
    (ha' : fs'.required key read = some a') : ∀ x ∈ floats, IsFinite x := by
  rw [Fields.required_back hfs hlookup] at ha'
  exact h.finite a' ha'

end Json

namespace Snapshot

variable {α β : Type} {levels : Nat} {first : Json.Value → Option α}
  {second : Json.Value → Option β} {v w : Json.Value} {xs ys : List Float} {a : α} {b : β}

/-- **A pair is restored** with its two items. -/
theorem restores_pair (hv : Restores levels first v xs a) (hw : Restores levels second w ys b) :
    Restores (levels + 1) (pair? first second) (.array [v, w]) (xs ++ ys) (a, b) := by
  have hread : reads (levels + 1) (pair? first second) (.array [v, w]) =
      (reads levels first v).bind fun a => (reads levels second w).bind fun b => some (a, b) := by
    rw [reads, Json.Value.back_array, List.mapM_cons, List.mapM_cons, reads, reads]
    cases v.back levels with
    | none => rfl
    | some v' =>
      cases w.back levels with
      | none => cases hv' : first v' <;> simp [hv']
      | some w' => rfl
  constructor
  · intro hkept
    rw [hread, hv.kept fun x hx => hkept x (List.mem_append_left _ hx),
      hw.kept fun x hx => hkept x (List.mem_append_right _ hx)]
    rfl
  · intro c hc
    rw [hread] at hc
    obtain ⟨a', ha, hc⟩ := Option.bind_eq_some_iff.1 hc
    obtain ⟨b', hb, -⟩ := Option.bind_eq_some_iff.1 hc
    intro x hx
    rcases List.mem_append.1 hx with hx | hx
    · exact hv.finite a' ha x hx
    · exact hw.finite b' hb x hx

/-- An optional number of 32 bits is restored. -/
theorem restores_nullable_word (levels : Nat) {write : α → Nat} {o : Option α}
    (h : ∀ a, o = some a → write a ≤ Word.max32) :
    Restores levels (nullable? word?) (.ofOption (fun a => .ofNat (write a)) o) []
      (o.map write) := by
  have hwords : Word.max32 ≤ Word.max64 := by decide
  have hrestores : Restores levels (nullable? word?) (.ofOption (fun a => .ofNat (write a)) o)
      (o.elim [] fun _ => []) (o.map write) := by
    refine .nullable (fun a ha => ?_) fun a ha => restores_word levels (h a ha)
    rw [Json.Value.back_ofNat (Nat.le_trans (h a ha) hwords)]
    nofun
  cases o <;> exact hrestores

end Snapshot

/-! ### Environments -/

/-- Entries that are written one after the other are looked up from the last one on. -/
theorem Env.get?_ofList (es : List (Key × Value)) (k : Key) :
    (ofList es.reverse).get? k = lookup k es := by
  -- The first entry is the one written last, and the one that is looked up first.
  rw [ofList, List.foldl_reverse]
  induction es with
  | nil => rfl
  | cons e es ih =>
    rw [List.foldr_cons, get?_put, ih, lookup]
    simp only [eq_comm]

/-- The order of entries with different keys does not matter. -/
theorem Env.lookup_perm {es ds : List (Key × Value)} (h : es.Perm ds)
    (hkeys : (es.map Prod.fst).Nodup) (k : Key) : lookup k es = lookup k ds := by
  have hkeys' : (ds.map Prod.fst).Nodup := (h.map Prod.fst).nodup_iff.1 hkeys
  refine Option.ext fun v => ?_
  rw [lookup_eq_some_iff hkeys, lookup_eq_some_iff hkeys', h.mem_iff]

/-- **An environment is the map of its entries**, written one after the other in any order. -/
theorem Env.ofList_of_perm {env : Env} {pairs : List (Key × Value)} (h : pairs.Perm env.entries) :
    ofList pairs = env := by
  refine ext_get? fun k => ?_
  have hreverse : env.entries.Perm pairs.reverse := h.symm.trans pairs.reverse_perm.symm
  calc (ofList pairs).get? k
      = (ofList pairs.reverse.reverse).get? k := by rw [List.reverse_reverse]
    _ = lookup k pairs.reverse := get?_ofList pairs.reverse k
    _ = env.get? k := (lookup_perm hreverse env.nodup_keys k).symm

variable {levels : Nat}

/-- **Environments are restored**, in whichever order their pairs were written. -/
theorem Env.restores (levels : Nat) {env : Env} (hfits : env.Fits) {v : Json.Value}
    (hv : env.IsSnapshot v) : Restores (levels + 4) Snapshot.env? v env.floats env := by
  obtain ⟨pairs, hperm, rfl⟩ := hv
  have hpairs : Restores (levels + 4) (listOf? (Snapshot.pair? Snapshot.key? Snapshot.value?))
      (snapshotOf pairs) (pairs.flatMap fun e => e.2.floats) pairs := by
    refine .list fun e he => ?_
    obtain ⟨hkey, hvalue⟩ := hfits e (hperm.mem_iff.1 he)
    exact Snapshot.restores_pair (Key.restores (levels + 1) hkey) (Value.restores levels hvalue)
  have henv : Restores (levels + 4) Snapshot.env? (snapshotOf pairs)
      (pairs.flatMap fun e => e.2.floats) (ofList pairs) :=
    hpairs.map ofList (Option.map_bind ..).symm
  rw [ofList_of_perm hperm] at henv
  exact henv.of_mem fun x => ((hperm.flatMap_right _).mem_iff).symm

/-! ### Activations -/

open Snapshot (word? value? env? pair? frame?) in
/-- **Activations are restored.** -/
theorem Frame.restores (levels : Nat) {f : Frame} (hfits : f.Fits) {v : Json.Value}
    (hv : f.IsSnapshot v) : Restores (levels + 5) frame? v f.floats f := by
  obtain ⟨env, henvSnapshot, rfl⟩ := hv
  have henv := Env.restores levels hfits.env henvSnapshot
  have hwaiting : Restores (levels + 4) (listOf? word?)
      (.array (f.waiting.reverse.map fun s => .ofNat s.index)) []
      (f.waiting.reverse.map fun s => s.index) :=
    Json.restores_list fun s hs =>
      Snapshot.restores_word _ (hfits.waiting s (List.mem_reverse.1 hs))
  have hresumes : Restores (levels + 4) (listOf? word?) (.array (f.resumes.reverse.map .ofNat)) []
      (f.resumes.reverse.map id) :=
    Json.restores_list fun n hn =>
      Snapshot.restores_word _ (hfits.resumes n (List.mem_reverse.1 hn))
  have hsuspended : Restores (levels + 4) (listOf? (pair? word? word?))
      (.array (f.suspended.reverse.map fun e => .array [.ofNat e.1.index, .ofNat e.2])) []
      (f.suspended.reverse.map fun e => (e.1.index, e.2)) := by
    refine Json.restores_list fun e he => ?_
    obtain ⟨hexpr, hstage⟩ := hfits.suspended e (List.mem_reverse.1 he)
    exact Snapshot.restores_pair (Snapshot.restores_word _ hexpr) (Snapshot.restores_word _ hstage)
  have hoperands : Restores (levels + 4) (listOf? value?)
      (.array (f.operands.reverse.map Value.snapshot)) (f.operands.reverse.flatMap Value.floats)
      f.operands.reverse :=
    .list fun v hv => Value.restores (levels + 1) (hfits.operands v (List.mem_reverse.1 hv))
  have hstmt := Snapshot.restores_nullable_word (levels + 4) hfits.stmt
  have hexpr := Snapshot.restores_nullable_word (levels + 4) hfits.expr
  have hstage := Snapshot.restores_word (levels + 4) hfits.stage
  have hexprStage := Snapshot.restores_word (levels + 4) hfits.exprStage
  have hfunction := Snapshot.restores_nullable_word (levels + 4) hfits.function
  have hscope := Snapshot.restores_word (levels + 4) hfits.scope
  -- The stacks are written from the bottom up, so the doubles come in another order.
  have hmem : ∀ x, x ∈ f.floats ↔ x ∈ f.env.floats ++ f.operands.reverse.flatMap Value.floats := by
    intro x
    simp [Frame.floats]
  refine Restores.of_mem (.object ?_ ?_ ?_) hmem
  · intro hkept
    obtain ⟨hkeptEnv, hkeptOperands⟩ := List.forall_mem_append.1 hkept
    exact ⟨henv.back hkeptEnv, hwaiting.back nofun, hresumes.back nofun, hsuspended.back nofun,
      hoperands.back hkeptOperands, hstmt.back nofun, hexpr.back nofun, hstage.back nofun,
      hexprStage.back nofun, hfunction.back nofun, hscope.back nofun⟩
  · intro hkept fs' hfs
    obtain ⟨hkeptEnv, hkeptOperands⟩ := List.forall_mem_append.1 hkept
    have hEnv : fs'.required "env" env? = _ := henv.required hfs rfl hkeptEnv
    have hWaiting : fs'.required "stmt_stack" (listOf? word?) = _ := hwaiting.required hfs rfl nofun
    have hResumes : fs'.required "stage_stack" (listOf? word?) = _ :=
      hresumes.required hfs rfl nofun
    have hSuspended : fs'.required "expr_stack" (listOf? (pair? word? word?)) = _ :=
      hsuspended.required hfs rfl nofun
    have hOperands : fs'.required "val_stack" (listOf? value?) = _ :=
      hoperands.required hfs rfl hkeptOperands
    have hStmt : fs'.nullable "stmt" word? = _ := hstmt.nullable_field hfs rfl nofun
    have hExpr : fs'.nullable "expr" word? = _ := hexpr.nullable_field hfs rfl nofun
    have hStage : fs'.required "stage" word? = _ := hstage.required hfs rfl nofun
    have hExprStage : fs'.required "expr_stage" word? = _ := hexprStage.required hfs rfl nofun
    have hFunction : fs'.nullable "function" word? = _ := hfunction.nullable_field hfs rfl nofun
    have hScope : fs'.required "scope" word? = _ := hscope.required hfs rfl nofun
    rw [frame?]
    simp only [Json.Value.fields?, Option.bind_eq_bind, Option.bind_some, hEnv, hWaiting, hResumes,
      hSuspended, hOperands, hStmt, hExpr, hStage, hExprStage, hFunction, hScope]
    simp [Function.comp_def]
  · intro fs' hfs f' hf'
    change (fs'.required "env" env?).bind _ = some f' at hf'
    obtain ⟨env, hEnv, hf'⟩ := Option.bind_eq_some_iff.1 hf'
    obtain ⟨_, -, hf'⟩ := Option.bind_eq_some_iff.1 hf'
    obtain ⟨_, -, hf'⟩ := Option.bind_eq_some_iff.1 hf'
    obtain ⟨_, -, hf'⟩ := Option.bind_eq_some_iff.1 hf'
    obtain ⟨operands, hOperands, -⟩ := Option.bind_eq_some_iff.1 hf'
    exact List.forall_mem_append.2
      ⟨henv.finite_required hfs rfl hEnv, hoperands.finite_required hfs rfl hOperands⟩

/-! ### The heap -/

open Snapshot (word? count? value? object? entry? heap?)
open Json.Value (string?)

/-- **Objects are restored.** -/
theorem Object.restores (levels : Nat) {o : Object} (hfits : o.Fits) :
    Restores (levels + 4) object? o.snapshot o.floats o := by
  have htype := Json.restores_string (levels + 3) o.typeName
  have hfields : Restores (levels + 3) (listOf? value?) (.array (o.fields.map Value.snapshot))
      (o.fields.flatMap Value.floats) o.fields :=
    .list fun v hv => Value.restores levels (hfits v hv)
  refine .object ?_ ?_ ?_
  · intro hkept
    exact ⟨htype.back nofun, hfields.back hkept⟩
  · intro hkept fs' hfs
    have hType : fs'.required "ty" string? = _ := htype.required hfs rfl nofun
    have hFields : fs'.required "fields" (listOf? value?) = _ := hfields.required hfs rfl hkept
    rw [object?]
    simp only [Json.Value.fields?, Option.bind_eq_bind, Option.bind_some, hType, hFields]
    rfl
  · intro fs' hfs o' ho'
    change (fs'.required "ty" string?).bind _ = some o' at ho'
    obtain ⟨_, -, ho'⟩ := Option.bind_eq_some_iff.1 ho'
    obtain ⟨fields, hFields, -⟩ := Option.bind_eq_some_iff.1 ho'
    exact hfields.finite_required hfs rfl hFields

/-- **Entries are restored.** -/
theorem Entry.restores (levels : Nat) {e : Entry} (hfits : ∀ o, e.object = some o → o.Fits) :
    Restores (levels + 5) entry? e.snapshot e.floats e := by
  have hgeneration := Snapshot.restores_word (levels + 4) (Nat.le_of_lt_succ e.generation.toNat_lt)
  have hobject : Restores (levels + 4) (nullable? object?) (.ofOption Object.snapshot e.object)
      e.floats (e.object.map id) := by
    refine .nullable (fun o _ => ?_) fun o ho => Object.restores levels (hfits o ho)
    rw [Object.snapshot, Json.Value.back_object]
    cases backFields (levels + 3) [("ty", .string o.typeName),
      ("fields", .array (o.fields.map Value.snapshot))] <;> nofun
  refine .object ?_ ?_ ?_
  · intro hkept
    exact ⟨hgeneration.back nofun, hobject.back hkept⟩
  · intro hkept fs' hfs
    have hGeneration : fs'.required "generation" word? = _ := hgeneration.required hfs rfl nofun
    have hObject : fs'.nullable "object" object? = _ := hobject.nullable_field hfs rfl hkept
    unfold entry?
    simp only [Json.Value.fields?, Option.bind_eq_bind, Option.bind_some, hGeneration, hObject]
    simp
  · intro fs' hfs e' he'
    change (fs'.required "generation" word?).bind _ = some e' at he'
    obtain ⟨_, -, he'⟩ := Option.bind_eq_some_iff.1 he'
    obtain ⟨object, hObject, -⟩ := Option.bind_eq_some_iff.1 he'
    rw [Json.Fields.nullable_back hfs rfl] at hObject
    exact hobject.finite object hObject

/-- **Heaps are restored.** -/
theorem Heap.restores (levels : Nat) {heap : Heap} (hfits : heap.Fits) :
    Restores (levels + 7) heap? heap.snapshot heap.floats heap := by
  have hentries : Restores (levels + 6) (listOf? entry?)
      (.array (heap.entries.toList.map Entry.snapshot)) (heap.entries.toList.flatMap Entry.floats)
      heap.entries.toList :=
    .list fun e he => Entry.restores levels (hfits.objects e (Array.mem_toList_iff.1 he))
  have hfree : Restores (levels + 6) (listOf? word?) (.array (heap.free.reverse.map .ofNat)) []
      (heap.free.reverse.map id) :=
    Json.restores_list fun n hn =>
      Snapshot.restores_word _ (hfits.free n (List.mem_reverse.1 hn))
  have hallocated : Restores (levels + 6) count? (.ofNat heap.allocated) [] heap.allocated :=
    Json.restores_natural _ (Nat.le_refl _) hfits.allocated
  refine .object ?_ ?_ ?_
  · intro hkept
    exact ⟨hentries.back hkept, hfree.back nofun, hallocated.back nofun⟩
  · intro hkept fs' hfs
    have hEntries : fs'.required "entries" (listOf? entry?) = _ := hentries.required hfs rfl hkept
    have hFree : fs'.required "free" (listOf? word?) = _ := hfree.required hfs rfl nofun
    have hAllocated : fs'.required "allocated_since_collect" count? = _ :=
      hallocated.required hfs rfl nofun
    rw [heap?]
    simp only [Json.Value.fields?, Option.bind_eq_bind, Option.bind_some, hEntries, hFree,
      hAllocated]
    simp
  · intro fs' hfs heap' hheap'
    change (fs'.required "entries" (listOf? entry?)).bind _ = some heap' at hheap'
    obtain ⟨entries, hEntries, -⟩ := Option.bind_eq_some_iff.1 hheap'
    exact hentries.finite_required hfs rfl hEntries

/-! ### Contexts -/

open Snapshot (frame? context?) in
/-- **Contexts are restored.** -/
theorem Context.restores (levels : Nat) {c : Context} (hfits : c.Fits) {v : Json.Value}
    (hv : c.IsSnapshot v) : Restores (levels + 8) context? v c.floats c := by
  obtain ⟨written, hfrom, hwritten, rfl⟩ := hv
  have hframes : Restores (levels + 7) (listOf? frame?) (.array (written.map Prod.snd))
      (written.flatMap fun w => w.1.floats) (written.map Prod.fst) := by
    refine .items fun w hw => ?_
    have hframe : w.1 ∈ c.frames.reverse := hfrom ▸ List.mem_map_of_mem hw
    exact Frame.restores (levels + 1) (hfits.frames w.1 (List.mem_reverse.1 hframe)) (hwritten w hw)
  rw [← List.flatMap_map, hfrom] at hframes
  have hheap := Heap.restores levels hfits.heap
  have hsteps : Restores (levels + 7) count? (.ofNat c.steps) [] c.steps :=
    Json.restores_natural _ (Nat.le_refl _) hfits.steps
  have hmem : ∀ x, x ∈ c.floats ↔ x ∈ c.frames.reverse.flatMap Frame.floats ++ c.heap.floats := by
    intro x
    simp [Context.floats]
  refine Restores.of_mem (.object ?_ ?_ ?_) hmem
  · intro hkept
    obtain ⟨hkeptFrames, hkeptHeap⟩ := List.forall_mem_append.1 hkept
    exact ⟨hframes.back hkeptFrames, hheap.back hkeptHeap, hsteps.back nofun⟩
  · intro hkept fs' hfs
    obtain ⟨hkeptFrames, hkeptHeap⟩ := List.forall_mem_append.1 hkept
    have hFrames : fs'.required "frames" (listOf? frame?) = _ :=
      hframes.required hfs rfl hkeptFrames
    have hHeap : fs'.required "heap" heap? = _ := hheap.required hfs rfl hkeptHeap
    have hSteps : fs'.required "steps" count? = _ := hsteps.required hfs rfl nofun
    rw [context?]
    simp only [Json.Value.fields?, Option.bind_eq_bind, Option.bind_some, hFrames, hHeap, hSteps]
    simp
  · intro fs' hfs c' hc'
    change (fs'.required "frames" (listOf? frame?)).bind _ = some c' at hc'
    obtain ⟨frames, hFrames, hc'⟩ := Option.bind_eq_some_iff.1 hc'
    obtain ⟨heap, hHeap, -⟩ := Option.bind_eq_some_iff.1 hc'
    exact List.forall_mem_append.2
      ⟨hframes.finite_required hfs rfl hFrames, hheap.finite_required hfs rfl hHeap⟩

namespace Context

theorem ofText?_text (v : Json.Value) :
    ofText? v.text = reads Json.maxLevels Snapshot.context? v := by
  rw [ofText?, Json.Value.ofText?_eq_back]
  rfl

variable {c : Context} {v : Json.Value}

/-- **A context is read back** from the text of any of its snapshots if each of its doubles is
kept. -/
theorem IsSnapshot.ofText? (hv : c.IsSnapshot v) (hfits : c.Fits)
    (hkept : ∀ x ∈ c.floats, Keeps x) : Context.ofText? v.text = some c := by
  rw [ofText?_text]
  exact (restores 119 hfits hv).kept hkept

/-- **A context is lost**, whichever of its snapshots was written, if one of its doubles is infinite
or NaN. -/
theorem IsSnapshot.ofText?_eq_none (hv : c.IsSnapshot v) (hfits : c.Fits)
    (hlost : ∃ x ∈ c.floats, ¬IsFinite x) : Context.ofText? v.text = none := by
  obtain ⟨x, hx, hspecial⟩ := hlost
  rw [ofText?_text]
  refine Option.eq_none_iff_forall_ne_some.2 fun c' hc' => ?_
  exact hspecial ((restores 119 hfits hv).finite c' hc' x hx)

end Context

end TreeMachine
