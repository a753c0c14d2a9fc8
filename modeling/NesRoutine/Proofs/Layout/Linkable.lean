import NesRoutine.Proofs.Layout.Standing

/-! When a unit can be generated. This is a question about the labels and the
micro-operations of the instructions, and not about their places. -/
namespace NesRoutine.Layout

/-- The slots are those of the micro-operations, and some that lead onward. -/
theorem mem_slotsOf {slot : Slot} (member : slot ∈ slotsOf xs) :
    (∃ x ∈ xs, ∃ m ∈ x.body, slot = .op m) ∨ ∃ a, slot = .fallThrough a := by
  obtain ⟨s, listed, inSpan⟩ := List.mem_flatMap.mp member
  obtain ⟨earlier, later, split⟩ := List.append_of_mem listed
  rw [(spans_append split).1, slotsBefore, List.mem_append] at inSpan
  rcases inSpan with ofBody | after
  · left
    obtain ⟨m, inBody, rfl⟩ := mem_opSlots ofBody
    exact ⟨s.lowered, (Stands.start split).mem, m, inBody, rfl⟩
  · right
    split at after
    · exact ⟨_, List.mem_singleton.mp after⟩
    · cases after

theorem op_mem_slotsOf {x : Lowered} (listed : x ∈ xs) (inBody : m ∈ x.body)
    (unlabelled : ∀ l, m ≠ .label l) : .op m ∈ slotsOf xs := by
  obtain ⟨n, later, stands⟩ := Stands.ofMem listed
  obtain ⟨earlier, s, split, rfl, _⟩ := stands.split
  obtain ⟨done, left, body⟩ := List.append_of_mem inBody
  exact List.mem_of_getElem? ((Stands.before split body).slot unlabelled)

/-- All labels of a list of instructions. -/
def labelsIn (xs : List Lowered) : List Label := xs.flatMap (labelsOf ·.body)

/-- What is placed has labels that are distinct and new. -/
theorem placeBody_fresh {l l' : Layout} (placed : l.placeBody ms = .ok l') :
    (labelsOf ms).Nodup ∧ ∀ label ∈ labelsOf ms, l.labels[label.key]? = none := by
  induction ms generalizing l with
  | nil => simp [labelsOf]
  | cons m ms ih =>
    rw [placeBody] at placed
    split at placed
    · cases placed
    · rename_i one step
      obtain ⟨distinct, fresh⟩ := ih placed
      cases m with
      | label mark =>
        simp only [placeOp] at step
        split at step
        · cases step
        · rename_i absent
          cases step
          have others : ∀ label ∈ labelsOf ms, mark ≠ label ∧ l.labels[label.key]? = none := by
            intro label member
            have new := fresh label member
            rw [Std.TreeMap.getElem?_insert] at new
            split at new
            · cases new
            · rename_i differs
              refine ⟨?_, new⟩
              rintro rfl
              exact differs (Nat.compare_eq_eq.mpr rfl)
          rw [labelsOf]
          constructor
          · exact List.nodup_cons.mpr ⟨fun member => (others mark member).1 rfl, distinct⟩
          · intro label member
            rcases List.mem_cons.mp member with rfl | later
            · simpa using absent
            · exact (others label later).2
      | effect | goto | branch | exit =>
        cases step
        exact ⟨distinct, fresh⟩

theorem place_fresh {l l' : Layout} {x : Lowered} {following : Option UInt16}
    (placed : l.place x following = .ok l') :
    (labelsOf x.body).Nodup ∧ ∀ label ∈ labelsOf x.body, l.labels[label.key]? = none := by
  rw [place] at placed
  split at placed
  · cases placed
  · rename_i body step
    obtain ⟨distinct, fresh⟩ := placeBody_fresh step
    exact ⟨distinct, fresh⟩

theorem placeAll_fresh {l l' : Layout} (placed : l.placeAll xs = .ok l') :
    (labelsIn xs).Nodup ∧ ∀ label ∈ labelsIn xs, l.labels[label.key]? = none := by
  induction xs generalizing l with
  | nil => simp [labelsIn]
  | cons x xs ih =>
    rw [placeAll] at placed
    split at placed
    · cases placed
    · rename_i one step
      obtain ⟨here, new⟩ := place_fresh step
      obtain ⟨distinct, fresh⟩ := ih placed
      have known := (place_ok step).2.2
      -- the labels of the others were not known once those of the first were placed
      have apart : ∀ label ∈ labelsIn xs,
          label ∉ labelsOf x.body ∧ l.labels[label.key]? = none := by
        intro label member
        have absent := fresh label member
        constructor
        · intro inBody
          rw [← marks_fst l.slots.size] at inBody
          obtain ⟨⟨_, index⟩, marked, rfl⟩ := List.mem_map.mp inBody
          have found := (known _ index).mpr (.inr marked)
          cases absent.symm.trans found
        · rw [Option.eq_none_iff_forall_ne_some]
          intro index old
          have found := (known label index).mpr (.inl old)
          cases absent.symm.trans found
      constructor
      · refine List.nodup_append.mpr ⟨here, distinct, ?_⟩
        rintro label inBody _ later rfl
        exact (apart label later).1 inBody
      · intro label member
        rcases List.mem_append.mp member with inBody | later
        · exact new label inBody
        · exact (apart label later).2

theorem mem_labelsIn {l : Label} :
    l ∈ labelsIn xs ↔ ∃ n, (l, n) ∈ (spans 0 xs).flatMap (·.marks) := by
  have spanned : labelsIn xs = (spans 0 xs).flatMap fun s => s.marks.map (·.1) := by
    simp only [labelsIn, Span.marks, marks_fst]
    nth_rewrite 1 [← spans_lowered 0 xs]
    rw [List.flatMap_map]
  rw [spanned]
  constructor
  · intro member
    obtain ⟨s, listed, inSpan⟩ := List.mem_flatMap.mp member
    obtain ⟨⟨_, n⟩, marked, rfl⟩ := List.mem_map.mp inSpan
    exact ⟨n, List.mem_flatMap.mpr ⟨s, listed, marked⟩⟩
  · rintro ⟨n, marked⟩
    obtain ⟨s, listed, inSpan⟩ := List.mem_flatMap.mp marked
    exact List.mem_flatMap.mpr ⟨s, listed, List.mem_map_of_mem inSpan⟩

end NesRoutine.Layout

namespace NesRoutine

/-- A micro-operation writes to what can be written, and leads to one of these labels. -/
def MicroOp.Linkable (labels : List Label) : MicroOp → Prop
  | effect e => ∀ d ∈ e.destination?, d.isWritable = true
  | goto target | branch _ _ target => target ∈ labels
  | label _ | exit _ => True

instance (labels : List Label) (m : MicroOp) : Decidable (m.Linkable labels) :=
  match m with
  | .effect e => inferInstanceAs (Decidable (∀ d ∈ e.destination?, d.isWritable = true))
  | .goto target | .branch _ _ target => inferInstanceAs (Decidable (target ∈ labels))
  | .label _ | .exit _ => inferInstanceAs (Decidable True)

theorem Layout.generateEffect_ok {e : Effect} :
    (∃ op, generateEffect e = .ok op) ↔ ∀ d ∈ e.destination?, d.isWritable = true := by
  rw [generateEffect]
  cases e.destination? with
  | none => simp
  | some d => by_cases writable : d.isWritable = true <;> simp [writable]

theorem Layout.eq_of_generateEffect {e : Effect} (generated : generateEffect e = .ok op) :
    op = .effect e := by
  rw [generateEffect] at generated
  split at generated
  · split at generated
    · exact (Except.ok.inj generated).symm
    · cases generated
  · exact (Except.ok.inj generated).symm

theorem Layout.generateDefault_ok {layout : Layout} (placed : placeAll {} xs = .ok layout)
    (m : MicroOp) :
    (∃ op, layout.generateDefault m = .ok op) ↔ m.Linkable (labelsIn xs) := by
  have resolves (l : Label) : (∃ n, layout.resolve l = .ok n) ↔ l ∈ labelsIn xs := by
    rw [mem_labelsIn]
    exact exists_congr fun n => placed_labels placed l n
  cases m with
  | effect e => exact generateEffect_ok
  | label l => exact ⟨fun _ => trivial, fun _ => ⟨_, rfl⟩⟩
  | exit e => exact ⟨fun _ => trivial, fun _ => ⟨_, rfl⟩⟩
  | goto target | branch onZero condition target =>
    simp only [MicroOp.Linkable, ← resolves, generateDefault]
    cases layout.resolve target <;> simp [Except.map]

/-- Each slot has its operation at the same index. -/
theorem Layout.Generates.made {layout : Layout} {ops : Array Op} {n : Nat}
    (generated : layout.Generates generators ops) (found : layout.slots.toList[n]? = some slot) :
    ∃ op, layout.generateSlot generators slot = .ok op ∧ ops[n]? = some op := by
  obtain ⟨inside, rfl⟩ := List.getElem?_eq_some_iff.mp found
  have bound : n < ops.toList.length := generated.length_eq ▸ inside
  have made := generated.get inside bound
  rw [List.get_eq_getElem] at made
  exact ⟨_, made, generated.getElem? found made⟩

namespace CodeUnit

/-- Without custom generators, a unit is generated exactly if the labels are distinct
and every micro-operation can be linked. -/
theorem generate_ok_iff {entry : UInt16} {xs : List Lowered} :
    (∃ u, generate (fun _ => none) entry xs = .ok u) ↔
      (Layout.labelsIn xs).Nodup ∧
        ∀ x ∈ xs, ∀ m ∈ x.body, m.Linkable (Layout.labelsIn xs) := by
  constructor
  · rintro ⟨u, generated⟩
    obtain ⟨layout, placed, _, _, ops⟩ := generate_ok generated
    refine ⟨(Layout.placeAll_fresh placed).1, ?_⟩
    intro x listed m inBody
    by_cases labelled : ∃ l, m = .label l
    · obtain ⟨l, rfl⟩ := labelled
      trivial
    · have slot := Layout.op_mem_slotsOf listed inBody (not_exists.mp labelled)
      rw [← Layout.placed_slots placed] at slot
      obtain ⟨n, found⟩ := List.mem_iff_getElem?.mp slot
      obtain ⟨op, made, _⟩ := ops.made found
      exact (Layout.generateDefault_ok placed m).mp ⟨op, made⟩
  · rintro ⟨distinct, linkable⟩
    obtain ⟨layout, placed⟩ : ∃ l, Layout.placeAll {} xs = .ok l :=
      Layout.placeAll_total distinct fun _ _ => by simp
    refine generate_total placed ?_
    intro slot member
    rw [Layout.placed_slots placed] at member
    rcases Layout.mem_slotsOf member with ⟨x, listed, m, inBody, rfl⟩ | ⟨a, rfl⟩
    · exact (Layout.generateDefault_ok placed m).mpr (linkable x listed m inBody)
    · rw [Layout.generateSlot]
      split
      · exact ⟨_, rfl⟩
      · exact ⟨_, rfl⟩

/-- A unit has an operation for each slot. -/
theorem generate_size {entry : UInt16} (generated : generate generators entry xs = .ok u) :
    u.ops.size = (Layout.slotsOf xs).length := by
  obtain ⟨layout, placed, _, _, ops⟩ := generate_ok generated
  rw [← Layout.placed_slots placed, ← Array.length_toList, ops.length_eq]

end CodeUnit
end NesRoutine
