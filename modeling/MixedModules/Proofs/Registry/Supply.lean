import Mathlib.Data.List.Nodup
import Mathlib.Data.List.Perm.Subperm
import Mathlib.Logic.Relation
import MixedModules.Proofs.Registry.Lookup

/-! What there is to build from, where it does not change.

Where the loader hands over the same for an identity each time, it is settled before a
build what can be reached from an entry, and whether all of it is there. A registry that
is filled from such a supply holds what it hands over and nothing else. -/
namespace MixedModules

variable {κ ℓ : Type}

/-- What there is to build from: how specifiers resolve, and what is handed over for an
identity. -/
structure Supply (κ : Type) where
  resolver : Specifier.Resolver
  hand : String → Loaded κ

namespace Supply

variable {supply : Supply κ} {identity start : String} {limit : Nat}

/-- A record that passes its check is handed over. -/
def Offers (supply : Supply κ) (identity : String) (record : Record κ) : Prop :=
  supply.hand identity = .record record ∧ record.validate = .ok ()

/-- The identities that a module asks for, in order. -/
def asks (supply : Supply κ) (identity : String) : List String :=
  match supply.hand identity with
  | .record record => record.requested.filterMap fun specifier =>
      (supply.resolver specifier (some identity)).toOption
  | _ => []

/-- A module is there, and everything it asks for has an identity. -/
def Complete (supply : Supply κ) (identity : String) : Prop :=
  ∃ record, supply.Offers identity record ∧ ∀ specifier ∈ record.requested,
    ∃ target, supply.resolver specifier (some identity) = .ok target

/-- What a module asks for, and what that asks for, and so on. -/
def Reaches (supply : Supply κ) : String → String → Prop :=
  Relation.ReflTransGen fun identity target => target ∈ supply.asks identity

/-- Everything that an entry reaches is there, and it is not too much. -/
structure Suffices (supply : Supply κ) (limit : Nat) (start : String) : Prop where
  complete : ∀ identity, supply.Reaches start identity → supply.Complete identity
  room : ∃ identities : List String, identities.length ≤ limit ∧
    ∀ identity, supply.Reaches start identity → identity ∈ identities

/-- Something that is reached is not there as a whole. -/
def Lacks (supply : Supply κ) (start : String) : Prop :=
  ∃ identity, supply.Reaches start identity ∧ ¬ supply.Complete identity

theorem Lacks.not_suffices (lacks : supply.Lacks start) : ¬ supply.Suffices limit start := by
  obtain ⟨identity, reaches, incomplete⟩ := lacks
  exact fun suffices_ => incomplete (suffices_.complete identity reaches)

theorem Lacks.of_reaches (reaches : supply.Reaches start identity)
    (lacks : supply.Lacks identity) : supply.Lacks start := by
  obtain ⟨missing, further, incomplete⟩ := lacks
  exact ⟨missing, reaches.trans further, incomplete⟩

/-- More identities than there is room for are too many. -/
theorem not_suffices_of_large {identities : List String} (distinct : identities.Nodup)
    (reached : ∀ identity ∈ identities, supply.Reaches start identity)
    (large : limit < identities.length) : ¬ supply.Suffices limit start := by
  rintro ⟨_, room, few, all⟩
  have fewer := (distinct.subperm fun identity member =>
    all identity (reached identity member)).length_le
  omega

theorem mem_asks {record : Record κ} {specifier target : String}
    (handed : supply.hand identity = .record record) (member : specifier ∈ record.requested)
    (resolves : supply.resolver specifier (some identity) = .ok target) :
    target ∈ supply.asks identity := by
  unfold asks
  rw [handed]
  exact List.mem_filterMap.mpr ⟨specifier, member, by rw [resolves]; rfl⟩

end Supply

namespace Registry

variable {supply : Supply κ} {r r' : Registry κ} {m : ModuleId} {i : Instance κ}
  {dependencies : Dependencies}

/-- The modules a module depends on, in the order of asking. -/
def targets (r : Registry κ) (m : ModuleId) : List ModuleId :=
  ((r.get? m).map Instance.targets).getD []

theorem Resolved.targets (resolved : r.Resolved m dependencies) :
    r.targets m = dependencies.map (·.2) := by
  obtain ⟨i, known, resolved⟩ := resolved
  simp [Registry.targets, known, Instance.targets, resolved]

/-- A registry that was filled from a supply: each identity is registered once, with
the record handed over for it, and specifiers lead to the identities they resolve to. -/
structure SuppliedBy (r : Registry κ) (supply : Supply κ) : Prop where
  distinct : ∀ m m' i i', r.get? m = some i → r.get? m' = some i' → i.identity = i'.identity →
    m = m'
  handed : ∀ m i, r.get? m = some i → supply.hand i.identity = .record i.record
  resolved : ∀ m i dependencies, r.get? m = some i → i.dependencies = some dependencies →
    ∀ d ∈ dependencies, ∃ j, r.get? d.2 = some j ∧
      supply.resolver d.1 (some i.identity) = .ok j.identity

namespace SuppliedBy

theorem offers (supplied : r.SuppliedBy supply) (stocked : r.Stocked) (known : r.get? m = some i) :
    supply.Offers i.identity i.record :=
  ⟨supplied.handed m i known, stocked.checked m i known⟩

theorem empty : (Registry.empty : Registry κ).SuppliedBy supply :=
  ⟨fun _ _ _ _ known => (by cases known), fun _ _ known => (by cases known),
    fun _ _ _ known => (by cases known)⟩

theorem register {identity : String} {record : Record κ} (supplied : r.SuppliedBy supply)
    (absent : r.lookup identity = none) (handed : supply.hand identity = .record record) :
    (r.register identity record).2.SuppliedBy supply := by
  have grows : r.Grows (fun _ => False) (r.register identity record).2 := grows_register r _ _
  have cases_ : ∀ m i, (r.register identity record).2.get? m = some i →
      (m.index = r.size ∧ i = .new identity record) ∨ r.get? m = some i := by
    intro m i known
    rw [get?_register] at known
    split at known
    · next last => exact .inl ⟨last, (Option.some.inj known).symm⟩
    · exact .inr known
  constructor
  · exact Distinct.register supplied.distinct absent
  · intro m i known
    rcases cases_ m i known with ⟨_, rfl⟩ | early
    · exact handed
    · exact supplied.handed m i early
  · intro m i dependencies known resolved d member
    rcases cases_ m i known with ⟨_, rfl⟩ | early
    · cases resolved
    · obtain ⟨j, there, resolves⟩ := supplied.resolved m i dependencies early resolved d member
      exact ⟨j, grows.unchanged not_false there, resolves⟩

/-- What was supplied stays so while modules keep their identities, records and
dependencies. -/
theorem transfer (supplied : r.SuppliedBy supply)
    (before : ∀ m i, r'.get? m = some i → ∃ i', r.get? m = some i' ∧ i'.identity = i.identity ∧
      i'.record = i.record ∧ i'.dependencies = i.dependencies)
    (after : ∀ m i, r.get? m = some i → ∃ i', r'.get? m = some i' ∧ i'.identity = i.identity) :
    r'.SuppliedBy supply := by
  constructor
  · refine Distinct.transfer supplied.distinct fun m _ ⟨i, known, same⟩ => ?_
    obtain ⟨j, held, identity, _⟩ := before m i known
    exact ⟨j, held, identity.trans same⟩
  · intro m i known
    obtain ⟨j, held, identity, record, _⟩ := before m i known
    rw [← identity, ← record]
    exact supplied.handed m j held
  · intro m i dependencies known resolved d member
    obtain ⟨j, held, identity, _, same⟩ := before m i known
    obtain ⟨t, there, resolves⟩ := supplied.resolved m j dependencies held (same.trans resolved) d
      member
    obtain ⟨t', there', identity'⟩ := after d.2 t there
    exact ⟨t', there', by rw [← identity, identity', resolves]⟩

theorem setDependencies {dependencies : Dependencies} (supplied : r.SuppliedBy supply)
    (known : r.get? m = some i)
    (resolves : ∀ d ∈ dependencies, ∃ j, r.get? d.2 = some j ∧
      supply.resolver d.1 (some i.identity) = .ok j.identity) :
    (r.setDependencies m dependencies).SuppliedBy supply := by
  have kept : ∀ x j, r.get? x = some j → ∃ j', (r.setDependencies m dependencies).get? x = some j' ∧
      j'.identity = j.identity := by
    intro x j held
    obtain ⟨_, held', _⟩ := (grows_setDependencies r m dependencies).kept x j held
    exact ⟨_, held', rfl⟩
  have origin : ∀ x j, (r.setDependencies m dependencies).get? x = some j →
      ∃ j', r.get? x = some j' ∧ j'.identity = j.identity ∧ j'.record = j.record ∧
        (j.dependencies = j'.dependencies ∨ x = m ∧ j.dependencies = some dependencies) := by
    intro x j held
    rw [get?_setDependencies] at held
    by_cases same : m = x
    · subst same
      simp only [↓reduceIte, known, Option.map_some, Option.some.injEq] at held
      subst held
      refine ⟨i, known, rfl, rfl, ?_⟩
      cases before : i.dependencies with
      | none => exact .inr ⟨rfl, rfl⟩
      | some d => exact .inl rfl
    · rw [if_neg same] at held
      exact ⟨j, held, rfl, rfl, .inl rfl⟩
  constructor
  · intro x x' j j' held held' same
    obtain ⟨k, was, identity, _⟩ := origin x j held
    obtain ⟨k', was', identity', _⟩ := origin x' j' held'
    exact supplied.distinct x x' k k' was was' (identity.trans (same.trans identity'.symm))
  · intro x j held
    obtain ⟨k, was, identity, record, _⟩ := origin x j held
    rw [← identity, ← record]
    exact supplied.handed x k was
  · intro x j already held resolved d member
    obtain ⟨k, was, identity, _, change⟩ := origin x j held
    have found : ∃ t, r.get? d.2 = some t ∧
        supply.resolver d.1 (some k.identity) = .ok t.identity := by
      rcases change with same | ⟨rfl, new⟩
      · exact supplied.resolved x k already was (same.symm.trans resolved) d member
      · cases new.symm.trans resolved
        cases known.symm.trans was
        exact resolves d member
    obtain ⟨t, there, answer⟩ := found
    obtain ⟨t', there', same⟩ := kept d.2 t there
    exact ⟨t', there', by rw [← identity, same, answer]⟩

end SuppliedBy

/-- The identity of a module, if it is registered. -/
def identityOf (r : Registry κ) (m : ModuleId) : String :=
  ((r.get? m).map (·.identity)).getD ""

theorem identityOf_eq (known : r.get? m = some i) : r.identityOf m = i.identity := by
  rw [identityOf, known]
  rfl

/-- The modules of a list are registered, and a start reaches them. -/
def ReachedFrom (r : Registry κ) (supply : Supply κ) (start : String) (ms : List ModuleId) : Prop :=
  ∀ m ∈ ms, ∃ i, r.get? m = some i ∧ supply.Reaches start i.identity

theorem ReachedFrom.grows {start : String} {ms : List ModuleId} {may : ModuleId → Prop}
    (reached : r.ReachedFrom supply start ms) (grows : r.Grows may r') :
    r'.ReachedFrom supply start ms := by
  intro m member
  obtain ⟨i, known, reaches⟩ := reached m member
  obtain ⟨_, known', _⟩ := grows.kept m i known
  exact ⟨_, known', reaches⟩

/-- A module asks for the identities of its targets, in the order of the targets. -/
theorem SuppliedBy.identities {dependencies : Dependencies} (supplied : r.SuppliedBy supply)
    (stocked : r.Stocked) (known : r.get? m = some i) (resolved : i.dependencies = some dependencies) :
    (r.targets m).map r.identityOf = supply.asks i.identity := by
  have names := (stocked.resolved m i dependencies known resolved).1
  rw [Resolved.targets ⟨i, known, resolved⟩, Supply.asks, supplied.handed m i known]
  dsimp only
  rw [← names]
  have answers := supplied.resolved m i dependencies known resolved
  clear names resolved
  induction dependencies with
  | nil => rfl
  | cons d rest ih =>
    obtain ⟨j, there, answer⟩ := answers d List.mem_cons_self
    have later := ih fun other member => answers other (List.mem_cons_of_mem _ member)
    rw [List.map_cons, List.map_cons, List.map_cons, List.filterMap_cons, answer, ← later,
      identityOf_eq there]
    rfl

theorem SuppliedBy.target_registered {target : ModuleId} (supplied : r.SuppliedBy supply)
    (member : target ∈ r.targets m) : ∃ j, r.get? target = some j := by
  unfold Registry.targets at member
  cases known : r.get? m with
  | none => simp [known] at member
  | some i =>
    cases resolved : i.dependencies with
    | none => simp [known, Instance.targets, resolved] at member
    | some dependencies =>
      simp only [known, Instance.targets, resolved, Option.map_some, Option.getD_some,
        List.mem_map] at member
      obtain ⟨d, held, rfl⟩ := member
      obtain ⟨j, there, _⟩ := supplied.resolved m i dependencies known resolved d held
      exact ⟨j, there⟩

/-- What the modules of a round depend on is reached too. -/
theorem ReachedFrom.spread {start : String} {ms round : List ModuleId}
    (reached : r.ReachedFrom supply start ms) (supplied : r.SuppliedBy supply) (stocked : r.Stocked)
    (inside : ∀ m ∈ round, m ∈ ms)
    (resolved : ∀ m ∈ round, ∃ dependencies, r.Resolved m dependencies) :
    r.ReachedFrom supply start (ms ++ round.flatMap r.targets) := by
  intro t member
  rcases List.mem_append.mp member with early | late
  · exact reached t early
  · obtain ⟨m, held, target⟩ := List.mem_flatMap.mp late
    obtain ⟨i, known, reaches⟩ := reached m (inside m held)
    obtain ⟨j, there⟩ := supplied.target_registered target
    obtain ⟨dependencies, i', known', resolved⟩ := resolved m held
    cases known.symm.trans known'
    refine ⟨j, there, reaches.tail ?_⟩
    rw [← supplied.identities stocked known resolved, ← identityOf_eq there]
    exact List.mem_map_of_mem target

/-- Reached modules have identities of their own, so too many of them are too much. -/
theorem ReachedFrom.not_suffices {start : String} {ms : List ModuleId} {limit : Nat}
    (reached : r.ReachedFrom supply start ms) (supplied : r.SuppliedBy supply) (distinct : ms.Nodup)
    (large : limit < ms.length) : ¬ supply.Suffices limit start := by
  have once : (ms.map r.identityOf).Nodup := by
    refine List.Nodup.map_on (fun m member m' member' same => ?_) distinct
    obtain ⟨i, known, _⟩ := reached m member
    obtain ⟨i', known', _⟩ := reached m' member'
    rw [identityOf_eq known, identityOf_eq known'] at same
    exact supplied.distinct m m' i i' known known' same
  have all : ∀ identity ∈ ms.map r.identityOf, supply.Reaches start identity := by
    intro identity member
    obtain ⟨m, held, rfl⟩ := List.mem_map.mp member
    obtain ⟨i, known, reaches⟩ := reached m held
    rwa [identityOf_eq known]
  exact Supply.not_suffices_of_large once all (by simpa using large)

end Registry

end MixedModules
