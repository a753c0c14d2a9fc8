import NesRoutine.Proofs.Discovery

/-! Discovery reports the first address in breadth-first order that does not
decode. It is compared with a walk that takes up an address each time it is
met. -/
namespace NesRoutine.Routine

variable {regions : List CodeRegion} {entry : UInt16}

/-- Where control goes from an address; nowhere if nothing decodes there. -/
def follow (regions : List CodeRegion) (a : UInt16) : List UInt16 :=
  match decodeAt regions a with
  | .ok i => i.successors
  | .error _ => []

theorem follow_of_decoded (decoded : decodeAt regions a = .ok i) :
    follow regions a = i.successors := by
  simp only [follow, decoded]

/-- Breadth-first order: the addresses `n` steps from the entry, in the order of
the addresses they are followed from, an address as often as it is met. -/
def generation (regions : List CodeRegion) (entry : UInt16) : Nat → List UInt16
  | 0 => [entry]
  | n + 1 => (generation regions entry n).flatMap (follow regions)

/-- `e` is the error of the first address in breadth-first order that does not
decode. -/
def FirstFailure (regions : List CodeRegion) (entry : UInt16) (e : DecodeError) : Prop :=
  ∃ n before a after, generation regions entry n = before ++ a :: after ∧
    decodeAt regions a = .error e ∧
    (∀ m < n, ∀ b ∈ generation regions entry m, Decodes regions b) ∧
    ∀ b ∈ before, Decodes regions b

/-- The addresses of a list that were not seen before, each where it first stands. -/
def fresh (seen : List UInt16) : List UInt16 → List UInt16
  | [] => []
  | a :: rest => if a ∈ seen then fresh seen rest else a :: fresh (a :: seen) rest

theorem mem_fresh {seen queue : List UInt16} : a ∈ fresh seen queue ↔ a ∈ queue ∧ a ∉ seen := by
  induction queue generalizing seen with
  | nil => simp [fresh]
  | cons b rest ih =>
    by_cases old : b ∈ seen
    · rw [fresh, if_pos old, ih, List.mem_cons]
      constructor
      · exact fun ⟨member, new⟩ => ⟨Or.inr member, new⟩
      · rintro ⟨rfl | member, new⟩
        · exact absurd old new
        · exact ⟨member, new⟩
    · rw [fresh, if_neg old, List.mem_cons, ih, List.mem_cons, List.mem_cons]
      by_cases same : a = b
      · simp [same, old]
      · simp [same]

theorem fresh_congr {seen seen' : List UInt16} (same : ∀ a, a ∈ seen ↔ a ∈ seen')
    (queue : List UInt16) : fresh seen queue = fresh seen' queue := by
  induction queue generalizing seen seen' with
  | nil => rfl
  | cons b rest ih =>
    have extended : ∀ a, a ∈ b :: seen ↔ a ∈ b :: seen' := by simp [same]
    simp only [fresh, same b, ih same, ih extended]

theorem fresh_append (seen queue more : List UInt16) :
    fresh seen (queue ++ more) = fresh seen queue ++ fresh (queue ++ seen) more := by
  induction queue generalizing seen with
  | nil => rfl
  | cons b rest ih =>
    by_cases old : b ∈ seen
    · have absorbed : ∀ a, a ∈ rest ++ seen ↔ a ∈ b :: rest ++ seen := by
        intro a
        by_cases same : a = b <;> simp [same, old]
      rw [List.cons_append, fresh, if_pos old, fresh, if_pos old, ih, fresh_congr absorbed]
    · have moved : ∀ a, a ∈ rest ++ b :: seen ↔ a ∈ b :: rest ++ seen := by
        intro a
        simp only [List.mem_append, List.mem_cons]
        tauto
      rw [List.cons_append, fresh, if_neg old, fresh, if_neg old, ih, fresh_congr moved]
      rfl

/-- Appending what stands in the queue, or was seen, brings nothing new. -/
theorem fresh_append_old {seen queue more : List UInt16}
    (old : ∀ a ∈ more, a ∈ queue ∨ a ∈ seen) : fresh seen (queue ++ more) = fresh seen queue := by
  have none : fresh (queue ++ seen) more = [] := by
    apply List.eq_nil_iff_forall_not_mem.mpr
    intro a member
    obtain ⟨member, new⟩ := mem_fresh.mp member
    exact new (List.mem_append.mpr (old a member))
  rw [fresh_append, none, List.append_nil]

theorem fresh_append_right {seen queue queue' : List UInt16}
    (same : fresh seen queue = fresh seen queue') (more : List UInt16) :
    fresh seen (queue ++ more) = fresh seen (queue' ++ more) := by
  have members : ∀ a, a ∈ queue ++ seen ↔ a ∈ queue' ++ seen := by
    intro a
    have new : a ∈ queue ∧ a ∉ seen ↔ a ∈ queue' ∧ a ∉ seen := by
      rw [← mem_fresh, ← mem_fresh, same]
    simp only [List.mem_append]
    tauto
  rw [fresh_append, fresh_append, same, fresh_congr members]

/-- The first new address of a queue, with what stands before and after it. -/
theorem fresh_eq_cons {seen queue rest : List UInt16} (found : fresh seen queue = a :: rest) :
    ∃ passed later, queue = passed ++ a :: later ∧ (∀ b ∈ passed, b ∈ seen) ∧
      rest = fresh (a :: seen) later := by
  induction queue with
  | nil => simp [fresh] at found
  | cons b queue ih =>
    by_cases old : b ∈ seen
    · rw [fresh, if_pos old] at found
      obtain ⟨passed, later, rfl, seen', rfl⟩ := ih found
      refine ⟨b :: passed, later, rfl, ?_, rfl⟩
      simpa using ⟨old, seen'⟩
    · rw [fresh, if_neg old] at found
      obtain ⟨rfl, rfl⟩ := List.cons.inj found
      exact ⟨[], queue, rfl, by simp, rfl⟩

/-- The queue of a breadth-first walk that takes up every address again each time
it is met: the rest of a generation, then what follows its first part. -/
def Frontier (regions : List CodeRegion) (entry : UInt16) (queue : List UInt16) : Prop :=
  ∃ n before after, generation regions entry n = before ++ after ∧
    queue = after ++ before.flatMap (follow regions) ∧
    (∀ m < n, ∀ b ∈ generation regions entry m, Decodes regions b) ∧
    ∀ b ∈ before, Decodes regions b

namespace Frontier

theorem start : Frontier regions entry [entry] :=
  ⟨0, [], [entry], rfl, rfl, by simp, by simp⟩

/-- A generation that is used up makes way for the next. -/
theorem head (frontier : Frontier regions entry (a :: queue)) :
    ∃ n before after, generation regions entry n = before ++ a :: after ∧
      queue = after ++ before.flatMap (follow regions) ∧
      (∀ m < n, ∀ b ∈ generation regions entry m, Decodes regions b) ∧
      ∀ b ∈ before, Decodes regions b := by
  obtain ⟨n, before, after, split, queued, earlier, decoded⟩ := frontier
  cases after with
  | cons b after =>
    obtain ⟨rfl, rfl⟩ := List.cons.inj queued
    exact ⟨n, before, after, split, rfl, earlier, decoded⟩
  | nil =>
    rw [List.append_nil] at split
    have next : generation regions entry (n + 1) = a :: queue := by
      rw [generation, split, queued, List.nil_append]
    refine ⟨n + 1, [], queue, next, by simp, ?_, by simp⟩
    intro m bound b member
    by_cases current : m = n
    · subst current
      exact decoded b (split ▸ member)
    · exact earlier m (by omega) b member

theorem pop (frontier : Frontier regions entry (a :: queue)) (decodes : Decodes regions a) :
    Frontier regions entry (queue ++ follow regions a) := by
  obtain ⟨n, before, after, split, rfl, earlier, decoded⟩ := frontier.head
  refine ⟨n, before ++ [a], after, by simp [split], by simp, earlier, ?_⟩
  intro b member
  rcases List.mem_append.mp member with old | last
  · exact decoded b old
  · rwa [List.mem_singleton.mp last]

theorem pass (frontier : Frontier regions entry (passed ++ queue))
    (decodes : ∀ b ∈ passed, Decodes regions b) :
    Frontier regions entry (queue ++ passed.flatMap (follow regions)) := by
  induction passed generalizing queue with
  | nil => simpa using frontier
  | cons b passed ih =>
    have popped := frontier.pop (decodes b List.mem_cons_self)
    have regrouped : Frontier regions entry (passed ++ (queue ++ follow regions b)) := by
      simpa using popped
    simpa using ih regrouped fun c member => decodes c (List.mem_cons_of_mem _ member)

theorem failure (frontier : Frontier regions entry (a :: queue))
    (failed : decodeAt regions a = .error e) : FirstFailure regions entry e := by
  obtain ⟨n, before, after, split, _, earlier, decoded⟩ := frontier.head
  exact ⟨n, before, a, after, split, failed, earlier, decoded⟩

end Frontier

theorem Sound.follow_found (sound : Sound regions entry pending s) (found : b ∈ s.addresses) :
    Decodes regions b ∧ ∀ c ∈ follow regions b, c ∈ s.addresses ∨ c ∈ pending := by
  obtain ⟨i, member, rfl⟩ := List.mem_map.mp found
  have decoded := (sound.decoded i member).2
  refine ⟨⟨i, decoded⟩, ?_⟩
  rw [follow_of_decoded decoded]
  exact sound.closed i member

/-- The search agrees with the walk that takes up every address again: their
queues hold the same new addresses in the same order, since all that follows an
old address is old or pending. -/
theorem Walk.first_failure (walk : Walk regions pending s result)
    (sound : Sound regions entry pending s) (frontier : Frontier regions entry queue)
    (agree : fresh s.addresses pending = fresh s.addresses queue) :
    ∀ e, result = .error e → FirstFailure regions entry e := by
  induction walk generalizing queue with
  | done => rintro _ ⟨⟩
  | again seen _ ih =>
    rw [fresh, if_pos ((sound.visited _).mp seen)] at agree
    exact ih (sound.again seen) frontier agree
  | fail new failed =>
    rw [fresh, if_neg (mt (sound.visited _).mpr new)] at agree
    obtain ⟨passed, later, rfl, old, _⟩ := fresh_eq_cons agree.symm
    rintro _ ⟨⟩
    exact (frontier.pass fun b member => (sound.follow_found (old b member)).1).failure failed
  | @add _ a pending s i new decoded _ ih =>
    rw [fresh, if_neg (mt (sound.visited _).mpr new)] at agree
    obtain ⟨passed, later, rfl, old, rest⟩ := fresh_eq_cons agree.symm
    have advanced : Frontier regions entry
        (later ++ passed.flatMap (follow regions) ++ follow regions a) :=
      (frontier.pass fun b member => (sound.follow_found (old b member)).1).pop ⟨i, decoded⟩
    rw [follow_of_decoded decoded] at advanced
    refine ih (sound.add new decoded) advanced ?_
    have seen : ∀ b, b ∈ (s.add i).addresses ↔ b ∈ a :: s.addresses := by
      simp [Search.addresses_add, decodeAt_address decoded, or_comm]
    have known : ∀ c ∈ passed.flatMap (follow regions), c ∈ later ∨ c ∈ a :: s.addresses := by
      intro c member
      obtain ⟨b, passed, followed⟩ := List.mem_flatMap.mp member
      by_cases known : c ∈ a :: s.addresses
      · exact Or.inr known
      · have waiting : c ∈ pending := by
          rcases (sound.follow_found (old b passed)).2 c followed with found | waiting
          · exact absurd (List.mem_cons_of_mem _ found) known
          · rcases List.mem_cons.mp waiting with rfl | waiting
            · exact absurd List.mem_cons_self known
            · exact waiting
        have new : c ∈ fresh (a :: s.addresses) later := by
          rw [← rest]
          exact mem_fresh.mpr ⟨waiting, known⟩
        exact Or.inl (mem_fresh.mp new).1
    rw [fresh_congr seen, fresh_congr seen]
    apply fresh_append_right
    rw [rest, fresh_append_old known]

theorem FirstFailure.unique (one : FirstFailure regions entry e)
    (two : FirstFailure regions entry e') : e = e' := by
  obtain ⟨n, before, a, after, split, failed, earlier, decoded⟩ := one
  obtain ⟨n', before', a', after', split', failed', earlier', decoded'⟩ := two
  have fails {b : UInt16} {e : DecodeError} (failed : decodeAt regions b = .error e) :
      ¬ Decodes regions b := by
    rintro ⟨i, decoded⟩
    cases failed.symm.trans decoded
  have level : n = n' := by
    rcases Nat.lt_trichotomy n n' with less | same | more
    · exact absurd (earlier' n less a (by simp [split])) (fails failed)
    · exact same
    · exact absurd (earlier n' more a' (by simp [split'])) (fails failed')
  subst level
  have place : before ++ a :: after = before' ++ a' :: after' := split.symm.trans split'
  rcases List.append_eq_append_iff.mp place with ⟨gap, rfl, rest⟩ | ⟨gap, rfl, rest⟩
  · cases gap with
    | nil =>
      obtain ⟨rfl, _⟩ := List.cons.inj rest
      exact Except.error.inj (failed.symm.trans failed')
    | cons b gap =>
      obtain ⟨rfl, _⟩ := List.cons.inj rest
      exact absurd (decoded' a (by simp)) (fails failed)
  · cases gap with
    | nil =>
      obtain ⟨rfl, _⟩ := List.cons.inj rest
      exact Except.error.inj (failed.symm.trans failed')
    | cons b gap =>
      obtain ⟨rfl, _⟩ := List.cons.inj rest
      exact absurd (decoded a' (by simp)) (fails failed')

theorem generation_reach : ∀ n, ∀ a ∈ generation regions entry n, Reach regions entry a := by
  intro n
  induction n with
  | zero =>
    intro a member
    obtain rfl := List.mem_singleton.mp member
    exact .entry
  | succ n ih =>
    intro a member
    obtain ⟨b, earlier, followed⟩ := List.mem_flatMap.mp member
    cases decoded : decodeAt regions b with
    | error e => simp [follow, decoded] at followed
    | ok i =>
      rw [follow_of_decoded decoded] at followed
      exact (ih b earlier).successor decoded followed

/-- A first failure stands at an address that can be reached. -/
theorem FirstFailure.reach (failure : FirstFailure regions entry e) :
    ∃ a, Reach regions entry a ∧ decodeAt regions a = .error e := by
  obtain ⟨n, before, a, after, split, failed, _⟩ := failure
  exact ⟨a, generation_reach n a (by simp [split]), failed⟩

theorem discover_error (failed : discover regions entry = .error e) :
    FirstFailure regions entry e := by
  have walk := explore_start regions entry
  unfold discover at failed
  cases explored : explore regions searchBound [entry] {} with
  | ok s => simp [explored] at failed
  | error e' =>
    rw [explored] at failed walk
    obtain rfl := Except.error.inj failed
    exact walk.first_failure Sound.start Frontier.start rfl e' rfl

theorem discover_ok_iff :
    (∃ r, discover regions entry = .ok r) ↔ ∀ a, Reach regions entry a → Decodes regions a := by
  constructor
  · rintro ⟨r, discovered⟩ a reached
    have exact := discover_exact discovered
    obtain ⟨i, member, rfl⟩ := exact.covers a reached
    exact ⟨i, (exact.decoded member).2⟩
  · intro decodes
    cases discovered : discover regions entry with
    | ok r => exact ⟨r, rfl⟩
    | error e =>
      obtain ⟨a, reached, failed⟩ := (discover_error discovered).reach
      obtain ⟨i, decoded⟩ := decodes a reached
      cases failed.symm.trans decoded

/-- Discovery always ends, without being cut off. It returns a routine exactly
when everything that can be reached decodes, the routine is exactly that code,
and otherwise the error is the first in breadth-first order. -/
theorem discover_reachable_code (regions : List CodeRegion) (entry : UInt16) :
    Walk regions [entry] {} (explore regions searchBound [entry] {}) ∧
    ((∃ r, discover regions entry = .ok r) ↔ ∀ a, Reach regions entry a → Decodes regions a) ∧
    (∀ r, discover regions entry = .ok r → Exact regions entry r) ∧
    ∀ e, discover regions entry = .error e ↔ FirstFailure regions entry e := by
  refine ⟨explore_start regions entry, discover_ok_iff, fun r => discover_exact, fun e => ?_⟩
  constructor
  · intro failed
    exact discover_error failed
  · intro failure
    cases discovered : discover regions entry with
    | ok r =>
      obtain ⟨a, reached, failed⟩ := failure.reach
      obtain ⟨i, decoded⟩ := discover_ok_iff.mp ⟨r, discovered⟩ a reached
      cases failed.symm.trans decoded
    | error e' =>
      rw [(discover_error discovered).unique failure]

end NesRoutine.Routine
