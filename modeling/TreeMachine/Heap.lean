import TreeMachine.Value

/-!
# The heap

Objects live in numbered entries and are reached through handles only. A handle carries the
generation of its entry; when the object of an entry is freed the generation moves on, so that a
handle kept longer than its object resolves to nothing, not to a later object in the same entry.

A collection keeps what can be reached from the given roots and frees the rest. Freed entries are
reused by later allocations, the one freed last first.

Marking goes on from a work list of handles. It takes one off the list at a time, and puts the
handles of an object on it when the object is marked, which happens once; so all the handles of the
heap and of the roots together are enough fuel (`Heap.marks`), and the definition is by recursion on
it. That this fuel always suffices, that the order of the work list does not matter, and that
exactly what cannot be reached is freed, is shown where collections are studied
(`Heap.rounds_marks`, `Heap.get?_collect_iff`).

Generations are counted modulo `2 ^ 32`, as the word for them has 32 bits. A handle therefore means
a later object again once its entry has been freed that many times, and statements about handles say
how often an entry may be freed.

Nothing limits the size of the heap here. A heap never shrinks: it has as many entries as were ever
taken at once. What `allocated` counts are allocations, not the objects that are there.
-/

namespace TreeMachine

/-- An object: the name of its type and its fields. -/
structure Object where
  typeName : String
  fields : List Value
  deriving DecidableEq, Repr

/-- The handles in the fields of an object. -/
def Object.handles (o : Object) : List Handle :=
  o.fields.filterMap Value.asObject?

/-- A place for an object, with the generation that its handles must have. -/
structure Entry where
  generation : UInt32
  object : Option Object
  deriving DecidableEq, Repr

/-- Whether an entry holds an object. -/
def Entry.isLive (e : Entry) : Bool :=
  e.object.isSome

/-- An entry after its object was freed. Generations are counted modulo `2 ^ 32`. -/
def Entry.vacated (e : Entry) : Entry :=
  ⟨e.generation + 1, none⟩

/-- The heap: its entries, the free ones in the order of their reuse, and the number of allocations
since the last collection. -/
structure Heap where
  entries : Array Entry
  free : List Nat
  allocated : Nat
  deriving DecidableEq, Repr

namespace Heap

/-- A heap without entries. -/
def empty : Heap := ⟨#[], [], 0⟩

/-- The object of a handle. There is none when the entry has none or is of another generation. -/
def get? (heap : Heap) (h : Handle) : Option Object :=
  match heap.entries[h.index]? with
  | some e => if e.generation = h.generation then e.object else none
  | none => none

/-- Appends an entry for an object. -/
def append (heap : Heap) (o : Object) : Heap × Handle :=
  ({ heap with entries := heap.entries.push ⟨0, some o⟩, allocated := heap.allocated + 1 },
    ⟨heap.entries.size, 0⟩)

/-- Stores an object, in a free entry if there is one. -/
def alloc (heap : Heap) (o : Object) : Heap × Handle :=
  match heap.free with
  | [] => heap.append o
  | i :: rest =>
    match heap.entries[i]? with
    | some e =>
      ({ entries := heap.entries.setIfInBounds i { e with object := some o },
         free := rest, allocated := heap.allocated + 1 }, ⟨i, e.generation⟩)
    | none => { heap with free := rest }.append o

/-- Changes the object of a handle, if it has one. -/
def modify (heap : Heap) (h : Handle) (f : Object → Object) : Heap :=
  match heap.get? h with
  | some o =>
    { heap with
      entries := heap.entries.setIfInBounds h.index ⟨h.generation, some (f o)⟩ }
  | none => heap

/-- Writes one field of the object of a handle, if there is such a field. -/
def setField (heap : Heap) (h : Handle) (i : Nat) (v : Value) : Heap :=
  heap.modify h fun o => { o with fields := o.fields.set i v }

/-- The number of objects. -/
def liveCount (heap : Heap) : Nat :=
  heap.entries.countP Entry.isLive

/-! ### Collection -/

/-- The number of handles in all objects. -/
def handleCount (heap : Heap) : Nat :=
  heap.entries.toList.foldl (fun n e => n + (e.object.elim 0 fun o => o.handles.length)) 0

/-- Marks the entries that the handles of the work list lead to. Every unit of fuel takes one handle
off the list; an entry's own handles are put on it when the entry is marked, which happens only
once. -/
def markFrom (heap : Heap) (fuel : Nat) (work : List Handle) (marked : Array Bool) : Array Bool :=
  match fuel, work with
  | 0, _ | _, [] => marked
  | fuel + 1, h :: work =>
    match marked[h.index]?, heap.get? h with
    | some false, some o =>
      markFrom heap fuel (o.handles ++ work) (marked.setIfInBounds h.index true)
    | _, _ => markFrom heap fuel work marked

/-- For every entry, whether its object can be reached from the roots. -/
def marks (heap : Heap) (roots : List Value) : Array Bool :=
  let work := roots.filterMap Value.asObject?
  heap.markFrom (work.length + heap.handleCount) work (Array.replicate heap.entries.size false)

/-- The indices of the entries whose objects a collection frees, in ascending order. -/
def garbage (heap : Heap) (roots : List Value) : List Nat :=
  let marked := heap.marks roots
  (List.range heap.entries.size).filter fun i =>
    (heap.entries[i]?.any Entry.isLive) && marked[i]? == some false

/-- Frees all objects that the roots do not reach. Also gives their number. -/
def collect (heap : Heap) (roots : List Value) : Heap × Nat :=
  let freed := heap.garbage roots
  ({ entries := freed.foldl (fun es i => es.modify i Entry.vacated) heap.entries,
     free := freed.reverse ++ heap.free, allocated := 0 }, freed.length)

end Heap

end TreeMachine
