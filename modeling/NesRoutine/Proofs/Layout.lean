import Mathlib.Data.List.Forall2
import NesRoutine.CodeUnit.Layout

/-! How a list of lowered instructions is laid out. Each instruction takes a span
of consecutive slots; labels and starts are indices into those spans. -/
namespace NesRoutine.Layout

/-- The slots of micro-operations; a label takes none. -/
def opSlots : List MicroOp → List Slot
  | [] => []
  | .label _ :: ms => opSlots ms
  | m :: ms => .op m :: opSlots ms

/-- The labels among micro-operations whose first slot is `start`, and where they lead. -/
def marks (start : Nat) : List MicroOp → List (Label × Nat)
  | [] => []
  | .label l :: ms => (l, start) :: marks start ms
  | _ :: ms => marks (start + 1) ms

def labelsOf : List MicroOp → List Label
  | [] => []
  | .label l :: ms => l :: labelsOf ms
  | _ :: ms => labelsOf ms

/-- Where the slots of one instruction begin, and what they are. -/
structure Span where
  start : Nat
  lowered : Lowered
  slots : List Slot

namespace Span

def address (s : Span) : UInt16 := s.lowered.instruction.address

def stop (s : Span) : Nat := s.start + s.slots.length

def marks (s : Span) : List (Label × Nat) := Layout.marks s.start s.lowered.body

end Span

/-- The slots of an instruction that `following` comes after. -/
def slotsBefore (x : Lowered) (following : Option UInt16) : List Slot :=
  opSlots x.body ++
    if fallsThrough x && following != some x.instruction.next then
      [.fallThrough x.instruction.next]
    else []

def spans (start : Nat) : List Lowered → List Span
  | [] => []
  | x :: xs =>
    let slots := slotsBefore x (xs.head?.map (·.instruction.address))
    ⟨start, x, slots⟩ :: spans (start + slots.length) xs

theorem spans_lowered (start : Nat) (xs : List Lowered) :
    (spans start xs).map (·.lowered) = xs := by
  induction xs generalizing start with
  | nil => rfl
  | cons x xs ih => rw [spans, List.map_cons, ih]

theorem placeOp_ok {l l' : Layout} {m : MicroOp} (placed : l.placeOp m = .ok l') :
    (∃ label, m = .label label ∧ l.labels[label.key]? = none ∧
      l' = { l with labels := l.labels.insert label.key l.slots.size }) ∨
    ((∀ ms, opSlots (m :: ms) = .op m :: opSlots ms) ∧
      (∀ start ms, marks start (m :: ms) = marks (start + 1) ms) ∧
      l' = { l with slots := l.slots.push (.op m) }) := by
  cases m with
  | label mark =>
    simp only [placeOp] at placed
    split at placed
    · cases placed
    · rename_i absent
      cases placed
      refine Or.inl ⟨mark, rfl, ?_, rfl⟩
      simpa using absent
  | effect | goto | branch | exit =>
    cases placed
    exact Or.inr ⟨fun _ => rfl, fun _ _ => rfl, rfl⟩

theorem placeBody_ok {l l' : Layout} (placed : l.placeBody ms = .ok l') :
    l'.slots.toList = l.slots.toList ++ opSlots ms ∧ l'.starts = l.starts ∧
      ∀ label index, l'.labels[label.key]? = some index ↔
        l.labels[label.key]? = some index ∨ (label, index) ∈ marks l.slots.size ms := by
  induction ms generalizing l with
  | nil =>
    cases placed
    simp [opSlots, marks]
  | cons m ms ih =>
    rw [placeBody] at placed
    split at placed
    · cases placed
    · rename_i one step
      obtain ⟨slots, starts, labels⟩ := ih placed
      rcases placeOp_ok step with ⟨mark, rfl, absent, rfl⟩ | ⟨slot, unmarked, rfl⟩
      · refine ⟨slots, starts, ?_⟩
        intro label index
        have keys : compare mark.key label.key = .eq ↔ mark = label :=
          Nat.compare_eq_eq.trans ⟨Label.key_injective, congrArg Label.key⟩
        simp only [labels, marks, List.mem_cons, Std.TreeMap.getElem?_insert, keys, Prod.mk.injEq]
        split
        · rename_i same
          subst same
          simp [absent, eq_comm]
        · rename_i differs
          simp [Ne.symm differs]
      · simp only [Array.toList_push, List.append_assoc, List.singleton_append] at slots
        simp only [Array.size_push] at labels
        simp only [slot, unmarked]
        exact ⟨slots, starts, labels⟩

theorem getElem?_insertIfNew_or (starts : Std.TreeMap UInt16 Nat) (k a : UInt16) (index : Nat) :
    (starts.insertIfNew k index)[a]? = starts[a]?.or (if k = a then some index else none) := by
  rw [Std.TreeMap.getElem?_insertIfNew]
  by_cases same : k = a
  · subst same
    cases known : starts[k]? with
    | none =>
      have absent : k ∉ starts := by simpa using known
      simp [absent]
    | some old =>
      have present : k ∈ starts := by simp [Std.TreeMap.mem_iff_isSome_getElem?, known]
      simp [present]
  · simp [same]

theorem place_ok {l l' : Layout} {x : Lowered} {following : Option UInt16}
    (placed : l.place x following = .ok l') :
    l'.slots.toList = l.slots.toList ++ slotsBefore x following ∧
      l'.starts = l.starts.insertIfNew x.instruction.address l.slots.size ∧
      ∀ label index, l'.labels[label.key]? = some index ↔
        l.labels[label.key]? = some index ∨ (label, index) ∈ marks l.slots.size x.body := by
  rw [place] at placed
  split at placed
  · cases placed
  · rename_i body step
    obtain ⟨slots, starts, labels⟩ := placeBody_ok step
    split at placed
    · rename_i falls
      cases placed
      refine ⟨?_, starts, labels⟩
      rw [Array.toList_push, slots, slotsBefore, if_pos falls, List.append_assoc]
    · rename_i stays
      cases placed
      refine ⟨?_, starts, labels⟩
      rw [slots, slotsBefore, if_neg stays, List.append_nil]

/-- What a layout holds once a list of instructions has been added to it. -/
theorem placeAll_ok {l l' : Layout} (placed : l.placeAll xs = .ok l') :
    l'.slots.toList = l.slots.toList ++ (spans l.slots.size xs).flatMap (·.slots) ∧
      (∀ a, l'.starts[a]? = l.starts[a]?.or
        (((spans l.slots.size xs).find? (·.address == a)).map (·.start))) ∧
      ∀ label index, l'.labels[label.key]? = some index ↔
        l.labels[label.key]? = some index ∨
          (label, index) ∈ (spans l.slots.size xs).flatMap (·.marks) := by
  induction xs generalizing l with
  | nil =>
    cases placed
    simp [spans]
  | cons x xs ih =>
    rw [placeAll] at placed
    split at placed
    · cases placed
    · rename_i one step
      obtain ⟨slots, starts, labels⟩ := place_ok step
      obtain ⟨slots', starts', labels'⟩ := ih placed
      have size : one.slots.size = l.slots.size +
          (slotsBefore x (xs.head?.map (·.instruction.address))).length := by
        rw [← Array.length_toList, slots, List.length_append, Array.length_toList]
      rw [size] at slots' starts' labels'
      refine ⟨?_, ?_, ?_⟩
      · rw [slots', slots, spans, List.flatMap_cons, List.append_assoc]
      · intro a
        rw [starts', starts, getElem?_insertIfNew_or, spans, Option.or_assoc, List.find?_cons]
        by_cases same : x.instruction.address = a
        · simp [Span.address, same]
        · have other : (x.instruction.address == a) = false := by simp [same]
          simp only [Span.address, same, other, if_false, Option.none_or]
      · intro label index
        rw [labels', labels, spans, List.flatMap_cons, List.mem_append, or_assoc]
        rfl

/-- A layout takes labels that are distinct and new to it. -/
theorem placeBody_total {l : Layout} (distinct : (labelsOf ms).Nodup)
    (fresh : ∀ label ∈ labelsOf ms, l.labels[label.key]? = none) :
    ∃ l', l.placeBody ms = .ok l' := by
  induction ms generalizing l with
  | nil => exact ⟨l, rfl⟩
  | cons m ms ih =>
    rw [placeBody]
    cases m with
    | label mark =>
      rw [labelsOf, List.nodup_cons] at distinct
      have absent : ¬ l.labels.contains mark.key = true := by
        simpa using fresh mark List.mem_cons_self
      simp only [placeOp, if_neg absent]
      refine ih distinct.2 ?_
      intro label member
      have keys : compare mark.key label.key ≠ .eq := by
        intro same
        rw [Label.key_injective (Nat.compare_eq_eq.mp same)] at distinct
        exact distinct.1 member
      rw [Std.TreeMap.getElem?_insert, if_neg keys]
      exact fresh label (List.mem_cons_of_mem _ member)
    | effect | goto | branch | exit => exact ih distinct fresh

theorem marks_fst (start : Nat) (ms : List MicroOp) :
    (marks start ms).map (·.1) = labelsOf ms := by
  induction ms generalizing start with
  | nil => rfl
  | cons m ms ih => cases m <;> simp only [marks, labelsOf, List.map_cons, ih]

theorem place_total {l : Layout} {x : Lowered} (following : Option UInt16)
    (distinct : (labelsOf x.body).Nodup)
    (fresh : ∀ label ∈ labelsOf x.body, l.labels[label.key]? = none) :
    ∃ l', l.place x following = .ok l' := by
  obtain ⟨body, placed⟩ := placeBody_total
    (l := { l with starts := l.starts.insertIfNew x.instruction.address l.slots.size })
    distinct fresh
  simp only [place, placed]
  split
  · exact ⟨_, rfl⟩
  · exact ⟨_, rfl⟩

theorem placeAll_total {l : Layout} (distinct : (xs.flatMap (labelsOf ·.body)).Nodup)
    (fresh : ∀ label ∈ xs.flatMap (labelsOf ·.body), l.labels[label.key]? = none) :
    ∃ l', l.placeAll xs = .ok l' := by
  induction xs generalizing l with
  | nil => exact ⟨l, rfl⟩
  | cons x xs ih =>
    rw [List.flatMap_cons, List.nodup_append] at distinct
    obtain ⟨here, later, apart⟩ := distinct
    obtain ⟨one, placed⟩ := place_total (xs.head?.map (·.instruction.address)) here
      fun label member => fresh label (List.mem_append_left _ member)
    simp only [placeAll, placed]
    refine ih later ?_
    intro label member
    have new := fresh label (List.mem_append_right _ member)
    have elsewhere : label ∉ labelsOf x.body := fun inBody => apart label inBody label member rfl
    rw [Option.eq_none_iff_forall_ne_some]
    intro index known
    rcases ((place_ok placed).2.2 label index).mp known with old | added
    · simp [new] at old
    · rw [← marks_fst l.slots.size] at elsewhere
      exact elsewhere (List.mem_map_of_mem added)

theorem span_getElem? (member : s ∈ spans start xs) (inside : k < s.slots.length) :
    start ≤ s.start ∧
      ((spans start xs).flatMap (·.slots))[s.start - start + k]? = s.slots[k]? := by
  induction xs generalizing start with
  | nil => cases member
  | cons x xs ih =>
    rw [spans, List.mem_cons] at member
    rw [spans, List.flatMap_cons]
    rcases member with rfl | later
    · simp [List.getElem?_append_left inside]
    · obtain ⟨bound, found⟩ := ih later
      refine ⟨by omega, ?_⟩
      rw [List.getElem?_append_right (by simp only; omega), ← found]
      congr 1
      simp only
      omega

/-- Spans follow one another, and an instruction falls through to another place
only if the next span is not the one it leads to. -/
theorem spans_append {p q : List Span} (split : spans start xs = p ++ s :: q) :
    s.slots = slotsBefore s.lowered (q.head?.map (·.address)) ∧
      ∀ t, q.head? = some t → t.start = s.stop := by
  induction xs generalizing start p with
  | nil => simp [spans] at split
  | cons x xs ih =>
    rw [spans] at split
    cases p with
    | nil =>
      simp only [List.nil_append, List.cons.injEq] at split
      obtain ⟨rfl, rfl⟩ := split
      cases xs with
      | nil => simp [spans]
      | cons y ys => simp [spans, Span.address, Span.stop]
    | cons first p =>
      simp only [List.cons_append, List.cons.injEq] at split
      exact ih split.2

end NesRoutine.Layout

namespace NesRoutine

theorem mapM_ok_iff {f : α → Except ε β} {xs : List α} {ys : List β} :
    xs.mapM f = .ok ys ↔ List.Forall₂ (fun x y => f x = .ok y) xs ys := by
  induction xs generalizing ys with
  | nil => cases ys <;> simp [pure, Except.pure]
  | cons x xs ih =>
    rw [List.mapM_cons, List.forall₂_cons_left_iff]
    cases first : f x with
    | error e => simp [bind, Except.bind]
    | ok y =>
      cases rest : xs.mapM f with
      | error e => simp [bind, Except.bind, ← ih, rest]
      | ok zs => simp [bind, Except.bind, pure, Except.pure, ← ih, rest, eq_comm]

theorem mapM_total {f : α → Except ε β} {xs : List α} (each : ∀ x ∈ xs, ∃ y, f x = .ok y) :
    ∃ ys, xs.mapM f = .ok ys := by
  induction xs with
  | nil => exact ⟨[], rfl⟩
  | cons x xs ih =>
    obtain ⟨y, first⟩ := each x List.mem_cons_self
    obtain ⟨ys, rest⟩ := ih fun z member => each z (List.mem_cons_of_mem _ member)
    exact ⟨y :: ys, mapM_ok_iff.mpr (.cons first (mapM_ok_iff.mp rest))⟩

/-- The operations are made from the slots of the layout, one from each. -/
def Layout.Generates (layout : Layout) (generators : Generators) (ops : Array Op) : Prop :=
  List.Forall₂ (fun slot op => layout.generateSlot generators slot = .ok op)
    layout.slots.toList ops.toList

theorem Layout.Generates.getElem? {layout : Layout} {ops : Array Op} {n : Nat}
    (generated : layout.Generates generators ops) (found : layout.slots.toList[n]? = some slot)
    (made : layout.generateSlot generators slot = .ok op) : ops[n]? = some op := by
  obtain ⟨inside, rfl⟩ := List.getElem?_eq_some_iff.mp found
  have bound : n < ops.toList.length := generated.length_eq ▸ inside
  have same := generated.get inside bound
  rw [List.get_eq_getElem, made] at same
  cases same
  simp at bound ⊢

namespace CodeUnit

variable {generators : Generators} {entry : UInt16} {xs : List Lowered}

theorem generate_ok {u : CodeUnit} (generated : generate generators entry xs = .ok u) :
    ∃ layout, Layout.placeAll {} xs = .ok layout ∧ u.entry = entry ∧ u.instructions = xs ∧
      layout.Generates generators u.ops := by
  rw [generate] at generated
  split at generated
  · cases generated
  · rename_i layout placed
    rw [Array.mapM_eq_mapM_toList] at generated
    cases ops : layout.slots.toList.mapM (layout.generateSlot generators) with
    | error e => simp [ops, Functor.map, Except.map] at generated
    | ok ops' =>
      simp only [ops, Functor.map, Except.map] at generated
      cases generated
      exact ⟨layout, placed, rfl, rfl, mapM_ok_iff.mp ops⟩

theorem generate_total {layout : Layout} (placed : Layout.placeAll {} xs = .ok layout)
    (each : ∀ slot ∈ layout.slots.toList, ∃ op, layout.generateSlot generators slot = .ok op) :
    ∃ u, generate generators entry xs = .ok u := by
  obtain ⟨ops, mapped⟩ := mapM_total each
  refine ⟨{ entry, ops := ops.toArray, instructions := xs }, ?_⟩
  simp only [generate, placed, Array.mapM_eq_mapM_toList, mapped, Functor.map, Except.map]

end CodeUnit
end NesRoutine
