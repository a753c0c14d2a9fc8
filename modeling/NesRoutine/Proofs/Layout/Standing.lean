import NesRoutine.Proofs.Layout

/-! Where control can stand in a laid out list of instructions, whatever these
do. An index stands for what is left of one instruction; from there the slots,
the labels and the starts of the layout lead to such places again. -/
namespace NesRoutine.Layout

theorem opSlots_append (before after : List MicroOp) :
    opSlots (before ++ after) = opSlots before ++ opSlots after := by
  induction before with
  | nil => rfl
  | cons m before ih => cases m <;> simp only [List.cons_append, opSlots, ih]

/-- A micro-operation other than a label has a slot. -/
theorem opSlots_cons {m : MicroOp} (unlabelled : ∀ l, m ≠ .label l) (ms : List MicroOp) :
    opSlots (m :: ms) = .op m :: opSlots ms := by
  cases m with
  | label l => exact absurd rfl (unlabelled l)
  | effect | goto | branch | exit => rfl

theorem mem_opSlots {slot : Slot} (member : slot ∈ opSlots ms) : ∃ m ∈ ms, slot = .op m := by
  induction ms with
  | nil => cases member
  | cons m ms ih =>
    cases m with
    | label l =>
      obtain ⟨m, listed, same⟩ := ih member
      exact ⟨m, List.mem_cons_of_mem _ listed, same⟩
    | effect | goto | branch | exit =>
      rcases List.mem_cons.mp member with rfl | later
      · exact ⟨_, List.mem_cons_self, rfl⟩
      · obtain ⟨m, listed, same⟩ := ih later
        exact ⟨m, List.mem_cons_of_mem _ listed, same⟩

/-- A label leads past the slots of what stands before it. -/
theorem mem_marks {l : Label} : (l, n) ∈ marks start ms ↔
    ∃ before after, ms = before ++ .label l :: after ∧ n = start + (opSlots before).length := by
  induction ms generalizing start with
  | nil => simp [marks]
  | cons m ms ih =>
    constructor
    · intro member
      cases m with
      | label l' =>
        rcases List.mem_cons.mp member with same | later
        · cases same
          exact ⟨[], ms, rfl, rfl⟩
        · obtain ⟨before, after, rfl, rfl⟩ := ih.mp later
          exact ⟨.label l' :: before, after, rfl, rfl⟩
      | effect | goto | branch | exit =>
        obtain ⟨before, after, rfl, rfl⟩ := ih.mp member
        refine ⟨_ :: before, after, rfl, ?_⟩
        simp only [opSlots, List.length_cons]
        omega
    · rintro ⟨before, after, split, rfl⟩
      cases before with
      | nil =>
        cases split
        exact List.mem_cons_self
      | cons m' before =>
        obtain ⟨rfl, rfl⟩ := List.cons.inj split
        have later : (l, start + (opSlots (m :: before)).length) ∈
            marks (start + (opSlots [m]).length) (before ++ .label l :: after) := by
          refine ih.mpr ⟨before, after, rfl, ?_⟩
          rw [← List.singleton_append, opSlots_append, List.length_append, Nat.add_assoc]
        cases m with
        | label l' => exact List.mem_cons_of_mem _ later
        | effect | goto | branch | exit => exact later

/-- All slots of a list of instructions. -/
def slotsOf (xs : List Lowered) : List Slot := (spans 0 xs).flatMap (·.slots)

theorem slotsOf_span {k : Nat} (split : spans 0 xs = earlier ++ s :: later)
    (found : s.slots[k]? = some slot) : (slotsOf xs)[s.start + k]? = some slot := by
  obtain ⟨inside, _⟩ := List.getElem?_eq_some_iff.mp found
  have listed : s ∈ spans 0 xs := by simp [split]
  rw [slotsOf, ← found]
  simpa using (span_getElem? listed inside).2

/-- Control that stands at index `n` has `left` still to do of the instruction `x`,
and `later` are the spans after that of `x`. It does not stand at the end of an
instruction whose last operation ends the flow. -/
structure Stands (xs : List Lowered) (n : Nat) (x : Lowered) (left : List MicroOp)
    (later : List Span) : Prop where
  split : ∃ earlier s, spans 0 xs = earlier ++ s :: later ∧ s.lowered = x ∧
    ∃ done, x.body = done ++ left ∧ n = s.start + (opSlots done).length
  passes : left = [] → fallsThrough x = true

namespace Stands

variable {xs : List Lowered} {n : Nat} {x : Lowered} {left : List MicroOp} {later : List Span}

/-- Control can stand at the beginning of every instruction. -/
theorem start (split : spans 0 xs = earlier ++ s :: later) :
    Stands xs s.start s.lowered s.lowered.body later := by
  constructor
  · exact ⟨earlier, s, split, rfl, [], rfl, rfl⟩
  · intro empty
    simp [fallsThrough, empty]

theorem first (x : Lowered) (xs : List Lowered) : ∃ later, Stands (x :: xs) 0 x x.body later := by
  obtain ⟨s, later, spanned, start, lowered⟩ :
      ∃ s later, spans 0 (x :: xs) = [] ++ s :: later ∧ s.start = 0 ∧ s.lowered = x :=
    ⟨_, _, rfl, rfl, rfl⟩
  subst lowered
  exact ⟨later, start ▸ Stands.start spanned⟩

theorem ofMem (listed : x ∈ xs) : ∃ n later, Stands xs n x x.body later := by
  rw [← spans_lowered 0 xs] at listed
  obtain ⟨s, member, rfl⟩ := List.mem_map.mp listed
  obtain ⟨earlier, later, split⟩ := List.append_of_mem member
  exact ⟨s.start, later, start split⟩

theorem mem (stands : Stands xs n x left later) : x ∈ xs := by
  obtain ⟨earlier, s, split, rfl, _⟩ := stands.split
  rw [← spans_lowered 0 xs, split]
  exact List.mem_map_of_mem (by simp)

/-- Control passes a micro-operation that does not end the flow. -/
theorem advance (stands : Stands xs n x (m :: left) later) (continues : m.endsFlow = false) :
    Stands xs (n + (opSlots [m]).length) x left later := by
  obtain ⟨earlier, s, split, lowered, done, body, rfl⟩ := stands.split
  constructor
  · refine ⟨earlier, s, split, lowered, done ++ [m], by simp [body], ?_⟩
    rw [opSlots_append, List.length_append, Nat.add_assoc]
  · rintro rfl
    simp [fallsThrough, body, continues]

/-- The slot of a micro-operation is where control stands before it. -/
theorem slot (stands : Stands xs n x (m :: left) later) (unlabelled : ∀ l, m ≠ .label l) :
    (slotsOf xs)[n]? = some (.op m) := by
  obtain ⟨earlier, s, split, rfl, done, body, rfl⟩ := stands.split
  refine slotsOf_span split ?_
  rw [(spans_append split).1, slotsBefore, body, opSlots_append, opSlots_cons unlabelled]
  simp

/-- At the end of an instruction the one that follows in memory is next in the
list, or else a slot leads there. -/
theorem onward (stands : Stands xs n x [] later) :
    (∃ t later', later = t :: later' ∧ t.address = x.instruction.next ∧
      Stands xs n t.lowered t.lowered.body later') ∨
    (slotsOf xs)[n]? = some (.fallThrough x.instruction.next) := by
  have falls := stands.passes rfl
  obtain ⟨earlier, s, split, rfl, done, body, rfl⟩ := stands.split
  rw [List.append_nil] at body
  obtain ⟨slots, next⟩ := spans_append split
  by_cases follows : later.head?.map (·.address) = some s.lowered.instruction.next
  · left
    obtain ⟨t, head, address⟩ := Option.map_eq_some_iff.mp follows
    obtain ⟨later', rfl⟩ := List.head?_eq_some_iff.mp head
    refine ⟨t, later', rfl, address, ?_⟩
    have stop : s.start + (opSlots done).length = t.start := by
      rw [next t head, Span.stop, slots]
      simp [slotsBefore, address, ← body]
    have split' : spans 0 xs = (earlier ++ [s]) ++ t :: later' := by simpa using split
    rw [stop]
    exact start split'
  · right
    refine slotsOf_span split ?_
    simp [slots, slotsBefore, falls, follows, ← body]

/-- Control can stand before every micro-operation. -/
theorem before (split : spans 0 xs = earlier ++ s :: later)
    (body : s.lowered.body = done ++ m :: left) :
    Stands xs (s.start + (opSlots done).length) s.lowered (m :: left) later := by
  constructor
  · exact ⟨earlier, s, split, rfl, done, body, rfl⟩
  · exact fun empty => nomatch empty

/-- A label leads to where what comes after it is left to do. -/
theorem ofLabel {l : Label} (listed : x ∈ xs) (body : x.body = done ++ .label l :: left) :
    ∃ n later, Stands xs n x left later ∧ (l, n) ∈ (spans 0 xs).flatMap (·.marks) := by
  obtain ⟨k, later, stands⟩ := ofMem listed
  obtain ⟨earlier, s, split, rfl, _⟩ := stands.split
  refine ⟨s.start + (opSlots done).length, later, (before split body).advance rfl, ?_⟩
  refine List.mem_flatMap.mpr ⟨s, by simp [split], ?_⟩
  exact mem_marks.mpr ⟨done, left, body, rfl⟩

theorem ofMark {l : Label} (marked : (l, n) ∈ (spans 0 xs).flatMap (·.marks)) :
    ∃ x done left later, x.body = done ++ .label l :: left ∧ Stands xs n x left later := by
  obtain ⟨s, member, inSpan⟩ := List.mem_flatMap.mp marked
  obtain ⟨done, left, body, rfl⟩ := mem_marks.mp inSpan
  obtain ⟨earlier, later, split⟩ := List.append_of_mem member
  exact ⟨s.lowered, done, left, later, body, (before split body).advance rfl⟩

end Stands

section Placed

variable {xs : List Lowered} {layout : Layout}

theorem placed_slots (placed : placeAll {} xs = .ok layout) :
    layout.slots.toList = slotsOf xs := by
  simpa [slotsOf] using (placeAll_ok placed).1

theorem placed_labels (placed : placeAll {} xs = .ok layout) (l : Label) (n : Nat) :
    layout.resolve l = .ok n ↔ (l, n) ∈ (spans 0 xs).flatMap (·.marks) := by
  have known : layout.labels[l.key]? = some n ↔ (l, n) ∈ (spans 0 xs).flatMap (·.marks) := by
    simpa using (placeAll_ok placed).2.2 l n
  rw [← known, resolve]
  cases layout.labels[l.key]? <;> simp

/-- Control that is sent to an address comes to an instruction there, if the list
has one. -/
theorem placed_starts (placed : placeAll {} xs = .ok layout) (a : UInt16) :
    (∃ n x later, layout.starts[a]? = some n ∧ x.instruction.address = a ∧
      Stands xs n x x.body later) ∨
    layout.starts[a]? = none ∧ ∀ x ∈ xs, x.instruction.address ≠ a := by
  have start : layout.starts[a]? = ((spans 0 xs).find? (·.address == a)).map (·.start) := by
    simpa using (placeAll_ok placed).2.1 a
  cases found : (spans 0 xs).find? (·.address == a) with
  | some s =>
    left
    have address : s.address = a := by simpa using List.find?_some found
    obtain ⟨earlier, later, split⟩ := List.append_of_mem (List.mem_of_find?_eq_some found)
    exact ⟨s.start, s.lowered, later, by simp [start, found], address, Stands.start split⟩
  | none =>
    right
    refine ⟨by simp [start, found], ?_⟩
    intro x listed same
    rw [← spans_lowered 0 xs] at listed
    obtain ⟨s, member, rfl⟩ := List.mem_map.mp listed
    exact List.find?_eq_none.mp found s member (by simpa [Span.address] using same)

end Placed

/-- Control passes labels, and the ends of instructions, without an operation. -/
inductive Drifts (xs : List Lowered) :
    Lowered → List MicroOp → Lowered → List MicroOp → Prop where
  | refl {x left} : Drifts xs x left x left
  | label {x l left y rest} : Drifts xs x left y rest → Drifts xs x (.label l :: left) y rest
  | next {x y z rest} : y ∈ xs → y.instruction.address = x.instruction.next →
      Drifts xs y y.body z rest → Drifts xs x [] z rest

/-- Wherever control stands there is a slot, and it is that of the place to which
control drifts. -/
theorem Stands.settles (stands : Stands xs n x left later) :
    ∃ y rest later', Drifts xs x left y rest ∧ Stands xs n y rest later' ∧
      (rest = [] ∧ (slotsOf xs)[n]? = some (.fallThrough y.instruction.next) ∨
        ∃ m rest', rest = m :: rest' ∧ (∀ l, m ≠ .label l) ∧ (slotsOf xs)[n]? = some (.op m)) := by
  -- the spans that come later get fewer with every instruction whose end is passed
  induction remaining : later.length using Nat.strongRecOn generalizing x left later with
  | ind _ ihLater =>
    induction left with
    | nil =>
      rcases stands.onward with ⟨t, later', rfl, address, there⟩ | slot
      · obtain ⟨y, rest, later'', drifts, settled⟩ :=
          ihLater later'.length (by simp [← remaining]) there rfl
        exact ⟨y, rest, later'', .next there.mem address drifts, settled⟩
      · exact ⟨x, [], later, .refl, stands, .inl ⟨rfl, slot⟩⟩
    | cons m left ihLeft =>
      by_cases labelled : ∃ l, m = .label l
      · obtain ⟨l, rfl⟩ := labelled
        obtain ⟨y, rest, later', drifts, settled⟩ := ihLeft (stands.advance rfl)
        exact ⟨y, rest, later', .label drifts, settled⟩
      · have unlabelled := not_exists.mp labelled
        exact ⟨x, m :: left, later, .refl, stands,
          .inr ⟨m, left, rfl, unlabelled, stands.slot unlabelled⟩⟩

end NesRoutine.Layout
