import Mathlib.Data.List.Perm.Subperm
import Mathlib.Logic.Relation
import MixedModules.Graph.Components

/-! The search for components finds exactly the strongly connected ones.

While the search is under way some modules wait on the path by which it came. Each
module on the stack can reach one of these that was discovered no later, and each of
these can reach everything later on the stack, so what leaves the stack together is
connected both ways. Nothing leaves it with an edge back to what stays, so components
come out after those they depend on. -/
namespace MixedModules.ModuleGraph
open Relation

variable {g : ModuleGraph} {within : ModuleId → Bool} {path : List ModuleId}
  {s before after : Search} {m : ModuleId} {low : Nat}

/-- A dependency between modules of the part. -/
def Edge (g : ModuleGraph) (within : ModuleId → Bool) (m next : ModuleId) : Prop :=
  next ∈ g.dependencies m ∧ within next = true

/-- Dependencies lead from one module to another inside the part. -/
def Reaches (g : ModuleGraph) (within : ModuleId → Bool) : ModuleId → ModuleId → Prop :=
  ReflTransGen (Edge g within)

namespace Search

def discovered (s : Search) : List ModuleId := s.numbers.map (·.1)

/-- When a discovered module was discovered. -/
def order (s : Search) (m : ModuleId) : Nat := (s.number? m).getD 0

theorem number?_isSome_iff : (s.number? m).isSome ↔ m ∈ s.discovered := by
  simp [number?, discovered, List.find?_isSome, List.mem_map]

theorem number?_eq_none_iff : s.number? m = none ↔ m ∉ s.discovered := by
  rw [← number?_isSome_iff]
  cases s.number? m <;> simp

theorem order_of_number? {number : Nat} (known : s.number? m = some number) :
    s.order m = number := by
  simp [order, known]

theorem number?_discover (s : Search) (m other : ModuleId) :
    (s.discover m).number? other = if m = other then some s.numbers.length else s.number? other := by
  by_cases same : m = other <;> simp [number?, discover, same]

@[simp] theorem discovered_discover (s : Search) (m : ModuleId) :
    (s.discover m).discovered = m :: s.discovered := rfl

@[simp] theorem discovered_complete (s : Search) (m : ModuleId) :
    (s.complete m).discovered = s.discovered := rfl

@[simp] theorem order_complete (s : Search) (m other : ModuleId) :
    (s.complete m).order other = s.order other := rfl

theorem order_discover_self (s : Search) (m : ModuleId) :
    (s.discover m).order m = s.numbers.length := by
  simp [order, number?_discover]

theorem order_discover_of_ne {other : ModuleId} (different : m ≠ other) :
    (s.discover m).order other = s.order other := by
  simp [order, number?_discover, different]

/-- What holds of a search while the modules of `path` wait, the latest first. -/
structure Sound (g : ModuleGraph) (within : ModuleId → Bool) (path : List ModuleId)
    (s : Search) : Prop where
  once : s.discovered.Nodup
  inside : ∀ m ∈ s.discovered, within m = true
  numbered : ∀ m ∈ s.discovered, s.order m < s.numbers.length
  falling : s.stack.Pairwise fun later earlier => s.order earlier < s.order later
  placed : ∀ m, m ∈ s.discovered ↔ m ∈ s.stack ∨ m ∈ s.components.flatten
  apart : ∀ m ∈ s.stack, m ∉ s.components.flatten
  complete : s.components.flatten.Nodup
  waiting : ∀ p ∈ path, p ∈ s.stack
  explored : ∀ m ∈ s.discovered, m ∉ path → ∀ next, Edge g within m next → next ∈ s.discovered
  settled : ∀ first, first <+: s.components → ∀ m ∈ first.flatten, ∀ next,
    Edge g within m next → next ∈ first.flatten
  inhabited : ∀ c ∈ s.components, c ≠ []
  upward : ∀ m ∈ s.stack, ∃ p ∈ path, s.order p ≤ s.order m ∧ Reaches g within m p
  downward : ∀ p ∈ path, ∀ m ∈ s.stack, s.order p ≤ s.order m → Reaches g within p m
  strong : ∀ c ∈ s.components, ∀ m ∈ c, ∀ other,
    other ∈ c ↔ Reaches g within m other ∧ Reaches g within other m

theorem sound_start : Search.start.Sound g within [] := by
  constructor <;> simp [Search.start, discovered]

theorem Sound.stacked (sound : s.Sound g within path) (member : m ∈ s.stack) :
    m ∈ s.discovered :=
  (sound.placed m).mpr (.inl member)

/-- No edge leads out of what is complete. -/
theorem Sound.closed (sound : s.Sound g within path) : ∀ m ∈ s.components.flatten, ∀ next,
    Edge g within m next → next ∈ s.components.flatten :=
  sound.settled s.components (List.prefix_refl _)

/-- A part of the search after `before`: what it discovered stays numbered, and what it
left on the stack stands above what was there. -/
structure Extends (before after : Search) (new : List ModuleId) : Prop where
  stack : after.stack = new ++ before.stack
  later : ∀ m ∈ new, before.numbers.length ≤ after.order m
  kept : ∀ m ∈ before.discovered, m ∈ after.discovered ∧ after.order m = before.order m
  grown : before.numbers.length ≤ after.numbers.length

theorem Extends.trans {middle : Search} {new newer : List ModuleId}
    (left : before.Extends middle new) (right : middle.Extends after newer)
    (discovered : ∀ m ∈ new, m ∈ middle.discovered) : before.Extends after (newer ++ new) := by
  refine ⟨by rw [right.stack, left.stack, List.append_assoc], fun m member => ?_,
    fun m held => ?_, Nat.le_trans left.grown right.grown⟩
  · rcases List.mem_append.mp member with newest | earlier
    · exact Nat.le_trans left.grown (right.later m newest)
    · rw [(right.kept m (discovered m earlier)).2]
      exact left.later m earlier
  · obtain ⟨found, same⟩ := left.kept m held
    obtain ⟨found', same'⟩ := right.kept m found
    exact ⟨found', same'.trans same⟩

/-- The answer `low` for `m`: no later module has an edge to anything on the old stack
earlier than `low`, and where `low` is earlier than all that is new, `m` reaches it. -/
structure Answers (g : ModuleGraph) (within : ModuleId → Bool) (before after : Search)
    (new : List ModuleId) (m : ModuleId) (low : Nat) : Prop where
  least : low ≤ before.numbers.length
  bounded : ∀ x ∈ new, ∀ next ∈ before.stack, Edge g within x next → low ≤ before.order next
  reached : low = before.numbers.length ∨
    ∃ y ∈ before.stack, before.order y = low ∧ Reaches g within m y

/-- What a visit of `m` does. -/
structure Visited (g : ModuleGraph) (within : ModuleId → Bool) (path : List ModuleId)
    (before : Search) (m : ModuleId) (low : Nat) (after : Search) : Prop where
  sound : after.Sound g within path
  found : m ∈ after.discovered
  answer : ∃ new, before.Extends after new ∧ Answers g within before after new m low

/-- The state of a visit of `m` after some of its edges: `new` is what they left on the
stack above `m`. -/
structure Following (g : ModuleGraph) (within : ModuleId → Bool) (path : List ModuleId)
    (before : Search) (m : ModuleId) (done : List ModuleId) (low : Nat) (s : Search) : Prop where
  sound : s.Sound g within (m :: path)
  answer : ∃ new, before.Extends s (new ++ [m]) ∧ Answers g within before s new m low
  followed : ∀ next ∈ done, within next = true →
    next ∈ s.discovered ∧ (next ∈ before.stack → low ≤ before.order next)

theorem Sound.order_lt (sound : s.Sound g within path) (member : m ∈ s.stack) :
    s.order m < s.numbers.length :=
  sound.numbered m (sound.stacked member)

theorem Sound.stack_nodup (sound : s.Sound g within path) : s.stack.Nodup :=
  sound.falling.imp fun later same => by subst same; exact Nat.lt_irrefl _ later

/-- The search goes on to a module that all waiting ones lead to. -/
theorem Sound.discover (sound : s.Sound g within path) (fresh : m ∉ s.discovered)
    (inside : within m = true) (led : ∀ p ∈ path, Reaches g within p m) :
    (s.discover m).Sound g within (m :: path) := by
  have other : ∀ {x}, x ∈ s.discovered → (s.discover m).order x = s.order x :=
    fun held => order_discover_of_ne fun same => fresh (same ▸ held)
  refine ⟨List.nodup_cons.mpr ⟨fresh, sound.once⟩, ?_, ?_, ?_, ?_, ?_, sound.complete, ?_, ?_,
    sound.settled, sound.inhabited, ?_, ?_, sound.strong⟩
  · intro x held
    rcases List.mem_cons.mp held with rfl | held
    · exact inside
    · exact sound.inside x held
  · intro x held
    change (s.discover m).order x < s.numbers.length + 1
    rcases List.mem_cons.mp held with rfl | held
    · rw [order_discover_self]
      exact Nat.lt_succ_self _
    · rw [other held]
      exact Nat.lt_succ_of_lt (sound.numbered x held)
  · refine List.pairwise_cons.mpr ⟨fun x member => ?_, ?_⟩
    · rw [order_discover_self, other (sound.stacked member)]
      exact sound.order_lt member
    · refine sound.falling.imp_of_mem fun later earlier falls => ?_
      rw [other (sound.stacked later), other (sound.stacked earlier)]
      exact falls
  · intro x
    rw [discovered_discover, List.mem_cons, sound.placed x, ← or_assoc]
    exact or_congr_left List.mem_cons.symm
  · intro x member
    rcases List.mem_cons.mp member with rfl | member
    · exact fun complete => fresh ((sound.placed x).mpr (.inr complete))
    · exact sound.apart x member
  · intro p waits
    rcases List.mem_cons.mp waits with rfl | waits
    · exact List.mem_cons_self
    · exact List.mem_cons_of_mem _ (sound.waiting p waits)
  · intro x held notWaiting next edge
    rcases List.mem_cons.mp held with rfl | held
    · exact absurd List.mem_cons_self notWaiting
    · refine List.mem_cons_of_mem _ (sound.explored x held (fun waits => ?_) next edge)
      exact notWaiting (List.mem_cons_of_mem _ waits)
  · intro x member
    rcases List.mem_cons.mp member with rfl | member
    · exact ⟨x, List.mem_cons_self, Nat.le_refl _, .refl⟩
    · obtain ⟨p, waits, earlier, path⟩ := sound.upward x member
      refine ⟨p, List.mem_cons_of_mem _ waits, ?_, path⟩
      rwa [other (sound.stacked (sound.waiting p waits)), other (sound.stacked member)]
  · intro p waits x member earlier
    rcases List.mem_cons.mp waits with rfl | waiting
    · rcases List.mem_cons.mp member with rfl | member
      · exact .refl
      · have later := sound.order_lt member
        rw [order_discover_self, other (sound.stacked member)] at earlier
        omega
    · rcases List.mem_cons.mp member with rfl | member
      · exact led p waiting
      · rw [other (sound.stacked (sound.waiting p waiting)), other (sound.stacked member)] at earlier
        exact sound.downward p waiting x member earlier

/-- One edge of the module being visited. -/
def follow (within : ModuleId → Bool) (visit : ModuleId → Search → Nat × Search)
    (state : Nat × Search) (next : ModuleId) : Nat × Search :=
  if !within next then state
  else match state.2.number? next with
    | none => (min state.1 (visit next state.2).1, (visit next state.2).2)
    | some number =>
      if state.2.stack.contains next then (min state.1 number, state.2) else state

namespace Following

variable {done : List ModuleId} {next : ModuleId}

theorem stack_mem (following : Following g within path before m done low s)
    (member : next ∈ before.stack) : next ∈ s.stack := by
  obtain ⟨new, extends_, _⟩ := following.answer
  rw [extends_.stack]
  exact List.mem_append_right _ member

theorem start (sound : before.Sound g within path) (fresh : m ∉ before.discovered)
    (inside : within m = true) (led : ∀ p ∈ path, Reaches g within p m) :
    Following g within path before m [] before.numbers.length (before.discover m) := by
  refine ⟨sound.discover fresh inside led, ⟨[], ⟨rfl, ?_, ?_, ?_⟩, Nat.le_refl _, by simp, .inl rfl⟩,
    by simp⟩
  · intro x member
    rw [List.nil_append, List.mem_singleton] at member
    exact Nat.le_of_eq (by rw [member, order_discover_self])
  · intro x held
    refine ⟨List.mem_cons_of_mem _ held, order_discover_of_ne fun same => fresh (same ▸ held)⟩
  · simp [discover]

/-- An edge to a module that was not discovered before. -/
theorem visit (following : Following g within path before m done low s)
    (sound : before.Sound g within path) (edge : next ∈ g.dependencies m)
    (fresh : next ∉ s.discovered) {reached : Nat}
    (visited : Visited g within (m :: path) s next reached after) :
    Following g within path before m (done ++ [next]) (min low reached) after := by
  obtain ⟨new, grown, answer⟩ := following.answer
  obtain ⟨newer, further, answer'⟩ := visited.answer
  have stacked : ∀ x ∈ new ++ [m], x ∈ s.discovered := fun x member =>
    following.sound.stacked (grown.stack ▸ List.mem_append_left _ member)
  have whole := grown.trans further stacked
  have orders : ∀ {x}, x ∈ before.stack → s.order x = before.order x := fun member =>
    (grown.kept _ (sound.stacked member)).2
  refine ⟨visited.sound, ⟨newer ++ new, by simpa using whole, ?_, ?_, ?_⟩, ?_⟩
  · exact Nat.le_trans (Nat.min_le_left _ _) answer.least
  · intro x member y old edge
    rcases List.mem_append.mp member with newest | earlier
    · have bound := answer'.bounded x newest y (following.stack_mem old) edge
      rw [orders old] at bound
      omega
    · have bound := answer.bounded x earlier y old edge
      omega
  · -- Only a module of the old stack can lie below what is known already.
    by_cases keeps : low ≤ reached
    · rw [Nat.min_eq_left keeps]
      exact answer.reached
    rw [Nat.min_eq_right (by omega)]
    rcases answer'.reached with all | ⟨y, member, same, way⟩
    · have least := answer.least
      have grows := grown.grown
      omega
    rw [grown.stack] at member
    rcases List.mem_append.mp member with new | old
    · have later := grown.later y new
      have least := answer.least
      omega
    · refine .inr ⟨y, old, by rw [← orders old, same], .head ⟨edge, ?_⟩ way⟩
      exact visited.sound.inside _ visited.found
  · intro x member inside
    rcases List.mem_append.mp member with early | last
    · obtain ⟨found, bound⟩ := following.followed x early inside
      refine ⟨(further.kept x found).1, fun old => ?_⟩
      have := bound old
      omega
    · cases List.mem_singleton.mp last
      exact ⟨visited.found, fun old =>
        absurd (following.sound.stacked (following.stack_mem old)) fresh⟩

/-- An edge to a module on the stack. -/
theorem back (following : Following g within path before m done low s)
    (sound : before.Sound g within path) (edge : next ∈ g.dependencies m)
    (waiting : next ∈ s.stack) :
    Following g within path before m (done ++ [next]) (min low (s.order next)) s := by
  obtain ⟨new, grown, answer⟩ := following.answer
  have orders : ∀ {x}, x ∈ before.stack → s.order x = before.order x := fun member =>
    (grown.kept _ (sound.stacked member)).2
  refine ⟨following.sound, ⟨new, grown, ?_, ?_, ?_⟩, ?_⟩
  · exact Nat.le_trans (Nat.min_le_left _ _) answer.least
  · intro x member y old edge
    have bound := answer.bounded x member y old edge
    omega
  · by_cases keeps : low ≤ s.order next
    · rw [Nat.min_eq_left keeps]
      exact answer.reached
    rw [Nat.min_eq_right (by omega)]
    rw [grown.stack] at waiting
    rcases List.mem_append.mp waiting with new | old
    · have later := grown.later next new
      have least := answer.least
      omega
    · refine .inr ⟨next, old, (orders old).symm, .single ⟨edge, ?_⟩⟩
      exact sound.inside _ (sound.stacked old)
  · intro x member inside
    rcases List.mem_append.mp member with early | last
    · obtain ⟨found, bound⟩ := following.followed x early inside
      refine ⟨found, fun old => ?_⟩
      have := bound old
      omega
    · cases List.mem_singleton.mp last
      refine ⟨following.sound.stacked waiting, fun old => ?_⟩
      rw [orders old]
      exact Nat.min_le_right _ _

/-- An edge that leaves the part, or leads to a complete component. -/
theorem pass (following : Following g within path before m done low s)
    (passed : within next = true → next ∈ s.discovered ∧ next ∉ s.stack) :
    Following g within path before m (done ++ [next]) low s := by
  refine ⟨following.sound, following.answer, fun x member inside => ?_⟩
  rcases List.mem_append.mp member with early | last
  · exact following.followed x early inside
  · cases List.mem_singleton.mp last
    obtain ⟨found, gone⟩ := passed inside
    exact ⟨found, fun old => absurd (following.stack_mem old) gone⟩

theorem follow (following : Following g within path before m done low s)
    (sound : before.Sound g within path) (edge : next ∈ g.dependencies m)
    {visit : ModuleId → Search → Nat × Search}
    (visits : within next = true → next ∉ s.discovered →
      Visited g within (m :: path) s next (visit next s).1 (visit next s).2) :
    Following g within path before m (done ++ [next])
      (follow within visit (low, s) next).1 (follow within visit (low, s) next).2 := by
  unfold Search.follow
  by_cases inside : within next = true
  · simp only [inside, Bool.not_true, Bool.false_eq_true, ↓reduceIte]
    cases known : s.number? next with
    | none =>
      have fresh := number?_eq_none_iff.mp known
      exact following.visit sound edge fresh (visits inside fresh)
    | some number =>
      by_cases waiting : next ∈ s.stack
      · simp only [List.contains_eq_mem, waiting, decide_true, ↓reduceIte]
        rw [← order_of_number? known]
        exact following.back sound edge waiting
      · simp only [List.contains_eq_mem, waiting, decide_false, Bool.false_eq_true, ↓reduceIte]
        refine following.pass fun _ => ⟨number?_isSome_iff.mp ?_, waiting⟩
        simp [known]
  · simp only [inside, Bool.not_false, ↓reduceIte]
    exact following.pass fun absurdly => absurd absurdly inside

/-- Modules that were there before the visit are discovered before the new ones. -/
theorem order_old_lt (following : Following g within path before m done low s)
    (sound : before.Sound g within path) (old : next ∈ before.stack) :
    s.order next < before.numbers.length := by
  obtain ⟨new, grown, _⟩ := following.answer
  rw [(grown.kept _ (sound.stacked old)).2]
  exact sound.order_lt old

theorem order_le (following : Following g within path before m done low s)
    (sound : before.Sound g within path) (old : next ∈ before.stack) :
    s.order next ≤ s.order m := by
  obtain ⟨new, grown, _⟩ := following.answer
  have own := grown.later m (by simp)
  have earlier := following.order_old_lt sound old
  omega

theorem counted (following : Following g within path before m done low s) :
    before.numbers.length < s.numbers.length := by
  obtain ⟨new, grown, _⟩ := following.answer
  have own := grown.later m (by simp)
  have top := following.sound.order_lt (following.sound.waiting m List.mem_cons_self)
  omega

/-- After all edges, everything discovered but the waiting modules is explored. -/
theorem explored (following : Following g within path before m (g.dependencies m) low s) :
    ∀ x ∈ s.discovered, x ∉ path → ∀ next, Edge g within x next → next ∈ s.discovered := by
  intro x found notWaiting next edge
  by_cases own : x = m
  · subst own
    exact (following.followed next edge.1 edge.2).1
  · refine following.sound.explored x found ?_ next edge
    simp [own, notWaiting]

/-- The module stays on the stack, since it reaches one discovered earlier. -/
theorem stay (following : Following g within path before m (g.dependencies m) low s)
    (sound : before.Sound g within path) (lower : low ≠ before.numbers.length) :
    Visited g within path before m low s := by
  obtain ⟨new, grown, answer⟩ := following.answer
  have now := following.sound
  obtain least | ⟨y, old, same, way⟩ := answer.reached
  · exact absurd least lower
  obtain ⟨p, waits, earlier, up⟩ := sound.upward y old
  have orders : ∀ {x}, x ∈ before.stack → s.order x = before.order x := fun member =>
    (grown.kept _ (sound.stacked member)).2
  have own : before.numbers.length ≤ s.order m := grown.later m (by simp)
  have below := answer.least
  refine ⟨{ now with
    waiting := fun p waits => now.waiting p (List.mem_cons_of_mem _ waits)
    explored := following.explored
    upward := ?_
    downward := fun p waits => now.downward p (List.mem_cons_of_mem _ waits) }, ?_, ?_⟩
  · intro x member
    obtain ⟨p', waits', earlier', up'⟩ := now.upward x member
    rcases List.mem_cons.mp waits' with rfl | waits'
    · refine ⟨p, waits, ?_, up'.trans (way.trans up)⟩
      rw [orders (sound.waiting p waits)]
      omega
    · exact ⟨p', waits', earlier', up'⟩
  · exact now.stacked (now.waiting m List.mem_cons_self)
  · refine ⟨new ++ [m], grown, answer.least, fun x member next old edge => ?_, answer.reached⟩
    rcases List.mem_append.mp member with above | last
    · exact answer.bounded x above next old edge
    · cases List.mem_singleton.mp last
      exact (following.followed next edge.1 edge.2).2 old

/-- What a complete component leaves behind. -/
theorem stack_complete {new : List ModuleId} (stack : s.stack = new ++ m :: before.stack)
    (notAbove : m ∉ new) :
    (s.complete m).stack = before.stack ∧
      (s.complete m).components = s.components ++ [m :: new.reverse] := by
  have above : s.stack.takeWhile (fun x => decide (x ≠ m)) = new := by
    rw [stack, List.takeWhile_append_of_pos]
    · simp
    · intro x member
      simpa using fun same : x = m => notAbove (same ▸ member)
  unfold Search.complete
  rw [above]
  refine ⟨?_, rfl⟩
  simp [stack]

/-- Where the module and what its visit left above it stand on the stack. -/
private structure Top (before : Search) (m : ModuleId) (s : Search) (new : List ModuleId) : Prop where
  stack : s.stack = new ++ m :: before.stack
  notAbove : m ∉ new
  below : ∀ x ∈ before.stack, s.order x < s.order m
  falling : before.stack.Pairwise fun later earlier => s.order earlier < s.order later
  lowest : ∀ x ∈ m :: new.reverse, x ∈ s.stack ∧ s.order m ≤ s.order x

private theorem top_of_extends {new : List ModuleId} (now : s.Sound g within (m :: path))
    (grown : before.Extends s (new ++ [m])) : Top before m s new := by
  have stack : s.stack = new ++ m :: before.stack := by simpa using grown.stack
  have falling := now.falling
  rw [stack, List.pairwise_append, List.pairwise_cons] at falling
  obtain ⟨_, ⟨earlier, fallingBefore⟩, later⟩ := falling
  refine ⟨stack, fun member => ?_, earlier, fallingBefore, fun x member => ?_⟩
  · exact Nat.lt_irrefl _ (later m member m List.mem_cons_self)
  · rw [stack]
    rcases List.mem_cons.mp member with rfl | above
    · exact ⟨by simp, Nat.le_refl _⟩
    · have above := List.mem_reverse.mp above
      exact ⟨List.mem_append_left _ above, Nat.le_of_lt (later x above m List.mem_cons_self)⟩

namespace Top

variable {new : List ModuleId} {x y : ModuleId}

theorem gone (top : Top before m s new) (member : x ∈ m :: new.reverse) : x ∉ before.stack :=
  fun old => Nat.lt_irrefl _ (Nat.lt_of_le_of_lt (top.lowest x member).2 (top.below x old))

theorem distinct (top : Top before m s new) (now : s.Sound g within (m :: path)) :
    (m :: new.reverse).Nodup := by
  have nodup := now.stack_nodup
  rw [top.stack] at nodup
  refine List.nodup_cons.mpr ⟨by simpa using top.notAbove, ?_⟩
  exact List.pairwise_reverse.mpr ((List.nodup_append.mp nodup).1.imp Ne.symm)

/-- An edge from the component stays in it or leads to a complete one. -/
theorem shut (top : Top before m s new)
    (following : Following g within path before m (g.dependencies m) low s)
    (sound : before.Sound g within path) (least : low = before.numbers.length)
    (answer : Answers g within before s new m low) (member : x ∈ m :: new.reverse)
    (edge : Edge g within x y) : y ∈ m :: new.reverse ∨ y ∈ s.components.flatten := by
  have now := following.sound
  have notWaiting : x ∉ path := fun waits => top.gone member (sound.waiting x waits)
  have found := following.explored x (now.stacked (top.lowest x member).1) notWaiting y edge
  rcases (now.placed y).mp found with stacked | complete
  · have inComponent : y ∉ before.stack := by
      intro old
      have bound : low ≤ before.order y := by
        rcases List.mem_cons.mp member with rfl | above
        · exact (following.followed y edge.1 edge.2).2 old
        · exact answer.bounded x (List.mem_reverse.mp above) y old edge
      have early := sound.order_lt old
      omega
    rw [top.stack] at stacked
    left
    simpa [inComponent, or_comm] using stacked
  · exact .inr complete

/-- All that stands there leads to the module, by way of what waits below it. -/
theorem toRoot (top : Top before m s new) (now : s.Sound g within (m :: path))
    (sound : before.Sound g within path) (member : x ∈ m :: new.reverse) :
    Reaches g within x m := by
  obtain ⟨p, waits, _, up⟩ := now.upward x (top.lowest x member).1
  rcases List.mem_cons.mp waits with rfl | waits
  · exact up
  · refine up.trans (now.downward p (List.mem_cons_of_mem _ waits) m ?_ ?_)
    · exact (top.lowest m List.mem_cons_self).1
    · exact Nat.le_of_lt (top.below p (sound.waiting p waits))

theorem fromRoot (top : Top before m s new) (now : s.Sound g within (m :: path))
    (member : x ∈ m :: new.reverse) : Reaches g within m x :=
  now.downward m List.mem_cons_self x (top.lowest x member).1 (top.lowest x member).2

/-- What is in the component is what is mutually reachable with a member. -/
theorem strong (top : Top before m s new) (now : s.Sound g within (m :: path))
    (sound : before.Sound g within path)
    (shut : ∀ x ∈ m :: new.reverse, ∀ y, Edge g within x y →
      y ∈ m :: new.reverse ∨ y ∈ s.components.flatten) (inside : x ∈ m :: new.reverse) :
    y ∈ m :: new.reverse ↔ Reaches g within x y ∧ Reaches g within y x := by
  constructor
  · intro also
    exact ⟨(top.toRoot now sound inside).trans (top.fromRoot now also),
      (top.toRoot now sound also).trans (top.fromRoot now inside)⟩
  · rintro ⟨there, back⟩
    have stays : y ∈ m :: new.reverse ∨ y ∈ s.components.flatten := by
      clear back
      induction there with
      | refl => exact .inl inside
      | tail _ edge ih =>
        rcases ih with inside | complete
        · exact shut _ inside _ edge
        · exact .inr (now.closed _ complete _ edge)
    have shutOff : ∀ {z}, y ∈ s.components.flatten → Reaches g within y z →
        z ∈ s.components.flatten := by
      intro z complete way
      induction way with
      | refl => exact complete
      | tail _ edge ih => exact now.closed _ ih _ edge
    rcases stays with also | complete
    · exact also
    · exact absurd (shutOff complete back) (now.apart x (top.lowest x inside).1)

end Top

/-- The module and all above it on the stack are a component. -/
theorem leave (following : Following g within path before m (g.dependencies m) low s)
    (sound : before.Sound g within path) (least : low = before.numbers.length) :
    Visited g within path before m low (s.complete m) := by
  obtain ⟨new, grown, answer⟩ := following.answer
  have now := following.sound
  have top := top_of_extends now grown
  have shut := fun x member y edge => top.shut (x := x) (y := y) following sound least answer member edge
  have orders : ∀ {x}, x ∈ before.stack → s.order x = before.order x := fun member =>
    (grown.kept _ (sound.stacked member)).2
  obtain ⟨stackAfter, componentsAfter⟩ := stack_complete top.stack top.notAbove
  have found := now.stacked (now.waiting m List.mem_cons_self)
  have flat : (s.complete m).components.flatten = s.components.flatten ++ (m :: new.reverse) := by
    rw [componentsAfter, List.flatten_append, List.flatten_singleton]
  refine ⟨⟨now.once, now.inside, now.numbered, ?_, ?_, ?_, ?_, ?_, following.explored, ?_, ?_, ?_, ?_,
    ?_⟩, found, [], ⟨stackAfter, by simp, grown.kept, grown.grown⟩, ?_, by simp, .inl least⟩
  · rw [stackAfter]
    exact top.falling
  · intro x
    rw [flat, stackAfter, discovered_complete, now.placed x, top.stack]
    simp only [List.mem_append, List.mem_cons, List.mem_reverse]
    tauto
  · intro x old complete
    rw [stackAfter] at old
    rw [flat] at complete
    rcases List.mem_append.mp complete with earlier | member
    · exact now.apart x (by simp [top.stack, old]) earlier
    · exact top.gone member old
  · rw [flat]
    refine List.nodup_append.mpr ⟨now.complete, top.distinct now, ?_⟩
    rintro x earlier _ member rfl
    exact now.apart x (top.lowest x member).1 earlier
  · intro p waits
    rw [stackAfter]
    exact sound.waiting p waits
  · intro first initial x complete next edge
    rw [componentsAfter, List.prefix_concat_iff] at initial
    rcases initial with rfl | initial
    · rw [← componentsAfter, flat] at complete ⊢
      rcases List.mem_append.mp complete with earlier | member
      · exact List.mem_append_left _ (now.closed x earlier next edge)
      · rcases shut x member next edge with inside | earlier
        · exact List.mem_append_right _ inside
        · exact List.mem_append_left _ earlier
    · exact now.settled first initial x complete next edge
  · intro c member
    rw [componentsAfter] at member
    rcases List.mem_append.mp member with earlier | last
    · exact now.inhabited c earlier
    · simp [List.mem_singleton.mp last]
  · intro x old
    rw [stackAfter] at old
    obtain ⟨p, waits, before, up⟩ := sound.upward x old
    refine ⟨p, waits, ?_, up⟩
    rwa [order_complete, order_complete, orders (sound.waiting p waits), orders old]
  · intro p waits x old before
    rw [stackAfter] at old
    rw [order_complete, order_complete, orders (sound.waiting p waits), orders old] at before
    exact sound.downward p waits x old before
  · intro c member x inside other
    rw [componentsAfter] at member
    rcases List.mem_append.mp member with earlier | last
    · exact now.strong c earlier x inside other
    · cases List.mem_singleton.mp last
      exact top.strong now sound shut inside
  · exact Nat.le_of_eq least

end Following

/-- A visit finds everything reachable that was not discovered, and completes every
component on the way. The depth suffices because a way of first visits has no more
modules than the graph. -/
theorem Sound.visit (depth : Nat) (sound : before.Sound g within path)
    (all : ∀ m, within m = true → m ∈ g.modules) (fresh : m ∉ before.discovered)
    (inside : within m = true) (led : ∀ p ∈ path, Reaches g within p m)
    (deep : g.size ≤ depth + before.discovered.length) :
    Visited g within path before m (g.visitComponent within depth m before).1
      (g.visitComponent within depth m before).2 := by
  induction depth generalizing m before path with
  | zero =>
    have bound : (m :: before.discovered).length ≤ g.modules.length := by
      refine (List.subperm_of_subset (List.nodup_cons.mpr ⟨fresh, sound.once⟩) ?_).length_le
      intro x member
      rcases List.mem_cons.mp member with rfl | held
      · exact all x inside
      · exact all x (sound.inside x held)
    simp only [List.length_cons, modules, List.length_map] at bound
    rw [size] at deep
    omega
  | succ depth ih =>
    have visits : ∀ done low s, Following g within path before m done low s →
        ∀ next ∈ g.dependencies m, within next = true → next ∉ s.discovered →
          Visited g within (m :: path) s next (g.visitComponent within depth next s).1
            (g.visitComponent within depth next s).2 := by
      intro done low s following next edge inside new
      have now := following.sound
      have onTop := now.stacked (now.waiting m List.mem_cons_self)
      refine ih now new inside (fun p waits => ?_) ?_
      · refine (now.downward p waits m (now.waiting m List.mem_cons_self) ?_).tail ⟨edge, inside⟩
        rcases List.mem_cons.mp waits with rfl | waits
        · exact Nat.le_refl _
        · exact following.order_le sound (sound.waiting p waits)
      · have counted := following.counted
        simp only [discovered, List.length_map] at deep ⊢
        omega
    have folds : ∀ rest done low s, Following g within path before m done low s →
        (∀ next ∈ rest, next ∈ g.dependencies m) →
        Following g within path before m (done ++ rest)
          (rest.foldl (follow within (g.visitComponent within depth)) (low, s)).1
          (rest.foldl (follow within (g.visitComponent within depth)) (low, s)).2 := by
      intro rest
      induction rest with
      | nil =>
        intro done low s following _
        simpa using following
      | cons next rest ihRest =>
        intro done low s following edges
        have edge := edges next List.mem_cons_self
        have step := following.follow sound edge (visits done low s following next edge)
        have rest := ihRest _ _ _ step fun other member => edges other (List.mem_cons_of_mem _ member)
        simpa using rest
    have followed := folds (g.dependencies m) [] _ _ (.start sound fresh inside led) fun _ h => h
    rw [List.nil_append] at followed
    change Visited g within path before m
      ((g.dependencies m).foldl (follow within (g.visitComponent within depth))
        (before.numbers.length, before.discover m)).1
      (if _ then _ else _)
    split
    · exact followed.leave sound ‹_›
    · exact followed.stay sound ‹_›

end Search

/-- Visiting all modules in order leaves nothing on the way. -/
private theorem sound_foldl (all : ∀ m, within m = true → m ∈ g.modules) (rest : List ModuleId)
    (sound : s.Sound g within []) :
    let last := rest.foldl (fun s m =>
      if within m && (s.number? m).isNone then (g.visitComponent within g.size m s).2 else s) s
    last.Sound g within [] ∧ (∀ m ∈ s.discovered, m ∈ last.discovered) ∧
      ∀ m ∈ rest, within m = true → m ∈ last.discovered := by
  induction rest generalizing s with
  | nil => exact ⟨sound, fun _ held => held, by simp⟩
  | cons m rest ih =>
    simp only [List.foldl_cons]
    by_cases enters : within m = true ∧ m ∉ s.discovered
    · obtain ⟨inside, fresh⟩ := enters
      have new : (s.number? m).isNone = true := by
        rw [Search.number?_eq_none_iff.mpr fresh]
        rfl
      have visited := sound.visit g.size all fresh inside (by simp) (Nat.le_add_right _ _)
      simp only [inside, new, Bool.and_self, ↓reduceIte]
      obtain ⟨_, kept, _⟩ := visited.answer
      obtain ⟨soundAfter, keptAfter, found⟩ := ih visited.sound
      refine ⟨soundAfter, fun x held => keptAfter x (kept.kept x held).1, fun x member within => ?_⟩
      rcases List.mem_cons.mp member with rfl | member
      · exact keptAfter x visited.found
      · exact found x member within
    · have skips : (within m && (s.number? m).isNone) = false := by
        rw [Bool.and_eq_false_imp]
        intro inside
        rw [Option.isNone_eq_false_iff, Search.number?_isSome_iff]
        exact by_contra fun fresh => enters ⟨inside, fresh⟩
      simp only [skips, Bool.false_eq_true, ↓reduceIte]
      obtain ⟨soundAfter, keptAfter, found⟩ := ih sound
      refine ⟨soundAfter, keptAfter, fun x member inside => ?_⟩
      rcases List.mem_cons.mp member with rfl | member
      · exact keptAfter x (by_contra fun fresh => enters ⟨inside, fresh⟩)
      · exact found x member inside

/-- When all modules were visited nothing is left on the stack. -/
theorem sound_components (all : ∀ m, within m = true → m ∈ g.modules) :
    ∃ last : Search, last.Sound g within [] ∧ last.components = g.components within ∧
      ∀ m, m ∈ (g.components within).flatten ↔ within m = true := by
  obtain ⟨sound, _, found⟩ := sound_foldl all g.modules Search.sound_start
  refine ⟨_, sound, rfl, fun m => ⟨fun complete => ?_, fun inside => ?_⟩⟩
  · exact sound.inside m ((sound.placed m).mpr (.inr complete))
  · rcases (sound.placed m).mp (found m (all m inside) inside) with stacked | complete
    · -- What is on the stack reaches a module that waits, and none does.
      obtain ⟨p, waits, _⟩ := sound.upward m stacked
      cases waits
    · exact complete

/-- Components are what is connected both ways inside the part, and every module of the
part is in one of them. -/
theorem components_strong (all : ∀ m, within m = true → m ∈ g.modules) :
    (g.components within).flatten.Nodup ∧
      (∀ m, m ∈ (g.components within).flatten ↔ within m = true) ∧
      ∀ c ∈ g.components within, ∀ m ∈ c, ∀ other,
        other ∈ c ↔ Reaches g within m other ∧ Reaches g within other m := by
  obtain ⟨last, sound, same, covers⟩ := sound_components all
  rw [← same] at covers ⊢
  exact ⟨sound.complete, covers, sound.strong⟩

end MixedModules.ModuleGraph
