import NesRoutine.Proofs.Layout
import NesRoutine.Proofs.Lowering
import NesRoutine.Proofs.Order

/-! The unit of a routine that was discovered. It is always generated; every
instruction has its operations one after another, jumps lead to the first
operation of an instruction, and control that passes an instruction comes to the
one that follows it in memory. -/
namespace NesRoutine

open Interpreter

/-- What a micro-operation becomes when the instruction at an address begins at
that position. -/
def MicroOp.link (position : UInt16 → Nat) : MicroOp → Op
  | effect e => .effect e
  | goto (.instruction a) => .goto (position a)
  | branch onZero condition (.instruction a) => .branch onZero condition (position a)
  | exit e => .exit e
  | goto (.inner ..) | branch _ _ (.inner ..) | label _ => .custom (pure .next)

namespace Layout

theorem opSlots_of_unlabelled {ms : List MicroOp} (unlabelled : labelsOf ms = []) :
    opSlots ms = ms.map .op ∧ ∀ start, marks start ms = [] := by
  induction ms with
  | nil => exact ⟨rfl, fun _ => rfl⟩
  | cons m ms ih =>
    cases m with
    | label l => simp [labelsOf] at unlabelled
    | effect | goto | branch | exit =>
      obtain ⟨slots, none⟩ := ih unlabelled
      exact ⟨congrArg _ slots, fun _ => none _⟩

end Layout

theorem Effect.Scoped.plain (inScope : Effect.Scoped w es) (member : e ∈ es) : e.Plain := by
  induction es generalizing w with
  | nil => cases member
  | cons first es ih =>
    rcases List.mem_cons.mp member with rfl | later
    · exact inScope.1
    · exact ih inScope.2.2 later

theorem Effect.Plain.generateEffect {e : Effect} (plain : e.Plain) :
    Layout.generateEffect e = .ok (.effect e) := by
  cases e with
  | hook tag => exact plain.elim
  | addWithCarry | compare | bitTest | setZeroNegative | push => rfl
  | copy | complement | binary | shift | pop =>
    simp only [Layout.generateEffect, destination?]
    rw [if_pos (plain _ rfl)]

namespace Instruction

variable {i : Instruction} {targets : Std.TreeSet UInt16}

theorem Shape.unlabelled (shape : i.Shape m leaving body) : Layout.labelsOf body = [] := by
  cases shape with
  | straight realize =>
    rename_i es
    clear realize
    induction es with
    | nil => rfl
    | cons e es ih => exact ih
  | branch | jump | exit => rfl

/-- The label in front of a lowered instruction takes no slot. -/
theorem lower_layout (unlabelled : Layout.labelsOf (i.lowerBody targets) = []) :
    Layout.opSlots (i.lower targets) = (i.lowerBody targets).map .op ∧
      Layout.labelsOf (i.lower targets) =
        (if targets.contains i.address then [.instruction i.address] else []) ∧
      (∀ start, Layout.marks start (i.lower targets) =
        if targets.contains i.address then [(.instruction i.address, start)] else []) ∧
      Layout.fallsThrough ⟨i, i.lower targets⟩ =
        !((i.lowerBody targets).getLast?.any MicroOp.endsFlow) := by
  obtain ⟨slots, unmarked⟩ := Layout.opSlots_of_unlabelled unlabelled
  cases known : targets.contains i.address with
  | false => simp [lower, known, slots, unmarked, unlabelled, Layout.fallsThrough]
  | true =>
    simp [lower, known, slots, unmarked, unlabelled, Layout.fallsThrough, Layout.opSlots,
      Layout.labelsOf, Layout.marks]
    cases i.lowerBody targets <;> rfl

theorem Shape.generates (shape : i.Shape m leaving body) {layout : Layout}
    (resolved : ∀ t, i.target = some t → layout.resolve (.instruction t) = .ok (position t))
    (member : op ∈ body) :
    layout.generateSlot (fun _ => none) (.op op) = .ok (op.link position) := by
  cases shape with
  | straight realize =>
    obtain ⟨e, listed, rfl⟩ := List.mem_map.mp member
    have plain := realize.inScope.plain listed
    simp [Layout.generateSlot, Layout.generateDefault, plain.generateEffect, MicroOp.link]
  | branch target =>
    rw [List.mem_singleton] at member
    subst member
    simp [Layout.generateSlot, Layout.generateDefault, resolved _ target, Except.map,
      MicroOp.link]
  | jump target =>
    rw [List.mem_singleton] at member
    subst member
    simp [Layout.generateSlot, Layout.generateDefault, resolved _ target, Except.map,
      MicroOp.link]
  | exit =>
    rw [List.mem_singleton] at member
    subst member
    rfl

end Instruction

namespace Routine

def spans (r : Routine) : List Layout.Span := Layout.spans 0 r.lower

/-- The index of the first operation of the instruction at an address. -/
def position (r : Routine) (a : UInt16) : Nat :=
  ((r.spans.find? (·.address == a)).map (·.start)).getD 0

/-- How many instructions stand from the one at an address on. -/
def remaining (r : Routine) (a : UInt16) : Nat := (r.spans.dropWhile (·.address != a)).length

/-- A unit in which the instructions of a routine are laid out and linked. -/
structure Linked (r : Routine) (u : CodeUnit) : Prop where
  start : r.position r.entry = 0
  body : ∀ i ∈ r.instructions, ∀ (k : Nat) m, (i.lowerBody r.targets)[k]? = some m →
    u.ops[r.position i.address + k]? = some (m.link r.position)
  onward : ∀ i ∈ r.instructions, (i.lowerBody r.targets).getLast?.any MicroOp.endsFlow = false →
    i.endsPath = false →
    r.position i.next = r.position i.address + (i.lowerBody r.targets).length ∧
      r.remaining i.next < r.remaining i.address ∨
    u.ops[r.position i.address + (i.lowerBody r.targets).length]? =
      some (.goto (r.position i.next))

variable {regions : List CodeRegion} {entry : UInt16} {r : Routine}

theorem spans_lowered (r : Routine) : r.spans.map (·.lowered) = r.lower :=
  Layout.spans_lowered 0 r.lower

theorem spans_address (r : Routine) :
    r.spans.map (·.address) = r.ordered.map (·.address) := by
  have lowered := congrArg (List.map (·.instruction.address)) r.spans_lowered
  simp only [lower, List.map_map] at lowered
  exact lowered

theorem endsFlow_effects (es : List Effect) :
    (es.map MicroOp.effect).getLast?.any MicroOp.endsFlow = false := by
  rw [List.getLast?_map]
  cases es.getLast? <;> rfl

namespace Exact

theorem shape (exact : Exact regions entry r) (member : i ∈ r.instructions) :
    i.Shape (execute i) (leaves i) (i.lowerBody r.targets) := by
  obtain ⟨_, decoded⟩ := exact.decoded member
  refine Instruction.shape_lowerBody (decodeAt_documented decoded) ?_
  intro t target
  exact (exact.mem_targets t).mpr ⟨i, member, target⟩

theorem spans_distinct (exact : Exact regions entry r) :
    (r.spans.map (·.address)).Nodup := by
  rw [spans_address]
  exact exact.ordered_distinct

theorem mem_of_mem_spans (listed : s ∈ r.spans) :
    ∃ i ∈ r.instructions, s.lowered = ⟨i, i.lower r.targets⟩ := by
  have lowered : s.lowered ∈ r.lower := by
    rw [← spans_lowered]
    exact List.mem_map_of_mem listed
  obtain ⟨i, ordered, same⟩ := List.mem_map.mp lowered
  exact ⟨i, r.ordered_perm.mem_iff.mp ordered, same.symm⟩

theorem mem_spans (member : i ∈ r.instructions) :
    ∃ s ∈ r.spans, s.lowered = ⟨i, i.lower r.targets⟩ := by
  have listed : (⟨i, i.lower r.targets⟩ : Lowered) ∈ r.lower :=
    List.mem_map_of_mem (r.ordered_perm.mem_iff.mpr member)
  rw [← spans_lowered] at listed
  simpa using listed

/-- The span of an address is the only one with it. -/
theorem span_unique (exact : Exact regions entry r) (split : r.spans = p ++ s :: q) :
    r.spans.find? (·.address == s.address) = some s ∧ r.position s.address = s.start ∧
      r.remaining s.address = q.length + 1 := by
  have distinct := exact.spans_distinct
  rw [split, List.map_append, List.map_cons, List.nodup_append] at distinct
  have before : ∀ t ∈ p, t.address ≠ s.address := fun t earlier =>
    distinct.2.2 _ (List.mem_map_of_mem earlier) _ List.mem_cons_self
  have passed : ∀ t ∈ p, (t.address != s.address) = true := by simpa using before
  have found : r.spans.find? (·.address == s.address) = some s := by
    have notFound : p.find? (·.address == s.address) = none := by simpa using before
    simp [split, List.find?_append, notFound]
  refine ⟨found, ?_, ?_⟩
  · simp only [position, found, Option.map_some, Option.getD_some]
  · simp [remaining, split, List.dropWhile_append_of_pos passed]

theorem position_eq (exact : Exact regions entry r) (member : s ∈ r.spans) :
    r.position s.address = s.start := by
  obtain ⟨p, q, split⟩ := List.append_of_mem member
  exact (exact.span_unique split).2.1

/-- The labels are those of the targets, in the order of their addresses. -/
theorem labels_lower (exact : Exact regions entry r) :
    r.lower.flatMap (Layout.labelsOf ·.body) =
      ((r.ordered.map (·.address)).filter r.targets.contains).map .instruction := by
  have labels (is : List Instruction) (found : ∀ i ∈ is, i ∈ r.instructions) :
      (is.map fun i => (⟨i, i.lower r.targets⟩ : Lowered)).flatMap (Layout.labelsOf ·.body) =
        ((is.map (·.address)).filter r.targets.contains).map .instruction := by
    induction is with
    | nil => rfl
    | cons i is ih =>
      have unlabelled := (exact.shape (found i List.mem_cons_self)).unlabelled
      have rest := ih fun j member => found j (List.mem_cons_of_mem _ member)
      simp only [List.map_cons, List.flatMap_cons, rest, (Instruction.lower_layout unlabelled).2.1]
      cases known : r.targets.contains i.address <;> simp [known]
  exact labels r.ordered fun i => r.ordered_perm.mem_iff.mp

theorem labels_distinct (exact : Exact regions entry r) :
    (r.lower.flatMap (Layout.labelsOf ·.body)).Nodup := by
  rw [exact.labels_lower]
  refine (exact.ordered_distinct.filter _).map ?_
  intro a b same
  cases same
  rfl

variable {layout : Layout}

theorem placed_slots (placed : Layout.placeAll {} r.lower = .ok layout) :
    layout.slots.toList = r.spans.flatMap (·.slots) := by
  simpa [spans] using (Layout.placeAll_ok placed).1

theorem resolves (exact : Exact regions entry r) (placed : Layout.placeAll {} r.lower = .ok layout)
    (known : t ∈ r.targets) : layout.resolve (.instruction t) = .ok (r.position t) := by
  obtain ⟨i, member, rfl⟩ := exact.target_found t known
  obtain ⟨s, listed, lowered⟩ := mem_spans member
  have address : s.address = i.address := by rw [Layout.Span.address, lowered]
  have marked : s.marks = [(.instruction i.address, s.start)] := by
    rw [Layout.Span.marks, lowered,
      (Instruction.lower_layout (exact.shape member).unlabelled).2.2.1,
      if_pos (Std.TreeSet.contains_iff_mem.mpr known)]
  have inMarks : (Label.instruction i.address, s.start) ∈ r.spans.flatMap (·.marks) := by
    rw [List.mem_flatMap]
    exact ⟨s, listed, marked ▸ List.mem_singleton_self _⟩
  have found := ((Layout.placeAll_ok placed).2.2 _ _).mpr (Or.inr inMarks)
  simp only [Layout.resolve, found]
  rw [← address, exact.position_eq listed]

theorem starts (exact : Exact regions entry r) (placed : Layout.placeAll {} r.lower = .ok layout)
    (member : i ∈ r.instructions) : layout.starts[i.address]? = some (r.position i.address) := by
  obtain ⟨s, listed, lowered⟩ := mem_spans member
  have address : s.address = i.address := by rw [Layout.Span.address, lowered]
  obtain ⟨p, q, split⟩ := List.append_of_mem listed
  obtain ⟨found, position, _⟩ := exact.span_unique split
  have start : layout.starts[s.address]? =
      (r.spans.find? (·.address == s.address)).map (·.start) := by
    simpa [spans] using (Layout.placeAll_ok placed).2.1 s.address
  rw [← address, start, found, position]
  rfl

theorem span_slots (exact : Exact regions entry r) (split : r.spans = p ++ s :: q)
    (member : i ∈ r.instructions) (lowered : s.lowered = ⟨i, i.lower r.targets⟩) :
    s.slots = (i.lowerBody r.targets).map .op ++
      if (i.lowerBody r.targets).getLast?.any MicroOp.endsFlow = false ∧
        q.head?.map (·.address) ≠ some i.next then [.fallThrough i.next] else [] := by
  obtain ⟨slots, _, _, falls⟩ := Instruction.lower_layout (exact.shape member).unlabelled
  rw [(Layout.spans_append split).1]
  simp only [Layout.slotsBefore, lowered, slots, falls]
  simp

/-- Everything that is laid out has an operation. -/
theorem slot_generates (exact : Exact regions entry r)
    (placed : Layout.placeAll {} r.lower = .ok layout) (member : i ∈ r.instructions)
    (listed : op ∈ i.lowerBody r.targets) :
    layout.generateSlot (fun _ => none) (.op op) = .ok (op.link r.position) := by
  refine (exact.shape member).generates ?_ listed
  intro t target
  exact exact.resolves placed ((exact.mem_targets t).mpr ⟨i, member, target⟩)

theorem generates (exact : Exact regions entry r)
    (placed : Layout.placeAll {} r.lower = .ok layout) :
    ∃ u, CodeUnit.generate (fun _ => none) entry r.lower = .ok u := by
  refine CodeUnit.generate_total placed ?_
  intro slot member
  rw [placed_slots placed] at member
  obtain ⟨s, listed, inSpan⟩ := List.mem_flatMap.mp member
  obtain ⟨p, q, split⟩ := List.append_of_mem listed
  obtain ⟨i, found, lowered⟩ := mem_of_mem_spans listed
  rw [exact.span_slots split found lowered, List.mem_append] at inSpan
  rcases inSpan with inBody | after
  · obtain ⟨op, listed, rfl⟩ := List.mem_map.mp inBody
    exact ⟨_, exact.slot_generates placed found listed⟩
  · split at after
    · rw [List.mem_singleton.mp after, Layout.generateSlot]
      split
      · exact ⟨_, rfl⟩
      · exact ⟨_, rfl⟩
    · cases after

theorem position_entry (exact : Exact regions entry r) : r.position r.entry = 0 := by
  obtain ⟨i, member, address⟩ := exact.covers entry .entry
  obtain ⟨first, rest, ordered, head⟩ := ordered_head member (address.trans exact.entry_eq.symm)
  have split : r.spans = [] ++ r.spans.head (by simp [spans, lower, ordered, Layout.spans]) ::
      r.spans.tail := by
    simp
  have address : (r.spans.head (by simp [spans, lower, ordered, Layout.spans])).address =
      r.entry := by
    simp [spans, lower, ordered, Layout.spans, Layout.Span.address, head]
  rw [← address, (exact.span_unique split).2.1]
  simp [spans, lower, ordered, Layout.spans]

theorem span_op {ops : Array Op} {k : Nat} (placed : Layout.placeAll {} r.lower = .ok layout)
    (generated : layout.Generates (fun _ => none) ops) (listed : s ∈ r.spans)
    (found : s.slots[k]? = some slot)
    (made : layout.generateSlot (fun _ => none) slot = .ok op) :
    ops[s.start + k]? = some op := by
  refine generated.getElem? ?_ made
  obtain ⟨inside, _⟩ := List.getElem?_eq_some_iff.mp found
  rw [placed_slots placed, ← found]
  simpa [spans] using (Layout.span_getElem? listed inside).2

theorem body_ops {ops : Array Op} {k : Nat} (exact : Exact regions entry r)
    (placed : Layout.placeAll {} r.lower = .ok layout)
    (generated : layout.Generates (fun _ => none) ops)
    (member : i ∈ r.instructions) (found : (i.lowerBody r.targets)[k]? = some m) :
    ops[r.position i.address + k]? = some (m.link r.position) := by
  obtain ⟨s, listed, lowered⟩ := mem_spans member
  obtain ⟨p, q, split⟩ := List.append_of_mem listed
  have address : s.address = i.address := by rw [Layout.Span.address, lowered]
  have inside := (List.getElem?_eq_some_iff.mp found).1
  have slot : s.slots[k]? = some (.op m) := by
    rw [exact.span_slots split member lowered, List.getElem?_append_left (by simpa using inside)]
    simp [found]
  rw [← address, exact.position_eq listed]
  exact span_op placed generated listed slot
    (exact.slot_generates placed member (List.mem_of_getElem? found))

theorem onward_ops {ops : Array Op} (exact : Exact regions entry r)
    (placed : Layout.placeAll {} r.lower = .ok layout)
    (generated : layout.Generates (fun _ => none) ops)
    (member : i ∈ r.instructions)
    (falls : (i.lowerBody r.targets).getLast?.any MicroOp.endsFlow = false)
    (continues : i.endsPath = false) :
    r.position i.next = r.position i.address + (i.lowerBody r.targets).length ∧
      r.remaining i.next < r.remaining i.address ∨
    ops[r.position i.address + (i.lowerBody r.targets).length]? =
      some (.goto (r.position i.next)) := by
  obtain ⟨s, listed, lowered⟩ := mem_spans member
  obtain ⟨p, q, split⟩ := List.append_of_mem listed
  have address : s.address = i.address := by rw [Layout.Span.address, lowered]
  have slots := exact.span_slots split member lowered
  obtain ⟨_, position, remaining⟩ := exact.span_unique split
  rw [← address, position, remaining]
  by_cases follows : q.head?.map (·.address) = some i.next
  · left
    obtain ⟨t, head, next⟩ := Option.map_eq_some_iff.mp follows
    obtain ⟨later, rfl⟩ := List.head?_eq_some_iff.mp head
    have split' : r.spans = (p ++ [s]) ++ t :: later := by simpa using split
    obtain ⟨_, position', remaining'⟩ := exact.span_unique split'
    have length : s.slots.length = (i.lowerBody r.targets).length := by simp [slots, next]
    rw [← next, position', remaining', (Layout.spans_append split).2 t head, Layout.Span.stop,
      length]
    exact ⟨rfl, Nat.lt_add_one _⟩
  · right
    obtain ⟨reached, decoded⟩ := exact.decoded member
    obtain ⟨j, target, next⟩ := exact.covers i.next (reached.next decoded continues)
    have slot : s.slots[(i.lowerBody r.targets).length]? = some (.fallThrough i.next) := by
      simp [slots, falls, follows]
    refine span_op placed generated listed slot ?_
    simp only [Layout.generateSlot, ← next, exact.starts placed target]

/-- A discovered routine always has a unit. -/
theorem linked (exact : Exact regions entry r) :
    ∃ u, CodeUnit.generate (fun _ => none) entry r.lower = .ok u ∧ r.Linked u := by
  obtain ⟨layout, placed⟩ : ∃ l, Layout.placeAll {} r.lower = .ok l :=
    Layout.placeAll_total exact.labels_distinct fun _ _ => by simp
  obtain ⟨u, generated⟩ := exact.generates placed
  obtain ⟨layout', placed', _, _, ops⟩ := CodeUnit.generate_ok generated
  cases placed.symm.trans placed'
  exact ⟨u, generated, exact.position_entry,
    fun i member k m => exact.body_ops placed ops member,
    fun i member => exact.onward_ops placed ops member⟩

end Exact
end Routine
end NesRoutine
