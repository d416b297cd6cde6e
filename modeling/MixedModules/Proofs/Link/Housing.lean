import MixedModules.Proofs.Link.Allocation
import MixedModules.Proofs.Link.Linking

/-! What linking a graph does to the store.

A module that is linked gets slots of the types it declares and an environment of its
own, to which no other module refers. Its imports are bound to slots of the types it
declares, and where a binary module imports from another, the check has been made. -/
namespace MixedModules

variable {κ : Type}

namespace Store

variable {s s' : Store κ} {homes homes' : EnvironmentId → Record κ → Prop} {e : EnvironmentId}
  {record : Record κ} {environment : Environment}

theorem Sound.furnished (sound : s.Sound homes) (furnished : s.Furnished s') : s'.Sound homes := by
  refine sound.step furnished.keeps furnished.fresh fun e after known => ⟨after, ?_, rfl, .inl rfl⟩
  rwa [environment?, furnished.environments, ← environment?] at known

/-- A new environment joins those that are there. -/
theorem Sound.addEnvironment (sound : s.Sound homes) (houses : s.Houses record environment)
    (owned : s.Owned environment.identity environment.locals)
    (within : ∀ e record, homes e record → e.index < s.environments.size)
    (extends_ : ∀ e other, homes' e other →
      homes e other ∨ e = ⟨s.environments.size⟩ ∧ other = record) :
    (s.addEnvironment environment).2.Sound homes' := by
  have keeps := (grows_addEnvironment s environment).toKeeps
  have reads : ∀ e, (s.addEnvironment environment).2.environment? e =
      if e.index = s.environments.size then some environment else s.environment? e := fun e => by
    simp only [Store.addEnvironment, environment?, Array.getElem?_push]
  refine ⟨fun i slot known => (sound.slots i slot known).kept keeps, fun e held known name i own => ?_,
    fun e other held home known => ?_⟩
  · rw [reads] at known
    split at known
    · cases known
      exact ((owned name i own).kept keeps).typed
    · exact (sound.locals e held known name i own).kept keeps
  · rw [reads] at known
    rcases extends_ e other home with old | ⟨rfl, rfl⟩
    · have inside := within e other old
      rw [if_neg (by omega)] at known
      exact (sound.houses e other held old known).kept keeps
    · rw [if_pos rfl] at known
      cases known
      exact houses.kept keeps

theorem environment?_modifyEnvironment (s : Store κ) (e e' : EnvironmentId)
    (change : Environment → Environment) : (s.modifyEnvironment e change).environment? e' =
      if e = e' then (s.environment? e').map change else s.environment? e' := by
  by_cases same : e = e'
  · subst same
    simp [modifyEnvironment, environment?, Array.getElem?_modify]
  · have places : e.index ≠ e'.index := fun h => same (by cases e; cases e'; cases h; rfl)
    simp [modifyEnvironment, environment?, Array.getElem?_modify, same, places]

/-- Entities stay when something else of an environment changes. -/
theorem Genuine.modifyEnvironment {s : Store κ} {e : EnvironmentId}
    {change : Environment → Environment} (genuine : s.Genuine)
    (kept : ∀ environment, (change environment).entities = environment.entities) :
    (s.modifyEnvironment e change).Genuine where
  slots := genuine.slots
  entities e' environment name value known found := by
    rw [environment?_modifyEnvironment] at known
    split at known
    · obtain ⟨before, there, rfl⟩ := Option.map_eq_some_iff.mp known
      exact genuine.entities e' before name value there (kept before ▸ found)
    · exact genuine.entities e' environment name value known found
  elements := genuine.elements

/-- A module gets its imports, all of which are bound as it declares. -/
theorem Sound.setImports {imports : Scope ImportBinding} (sound : s.Sound homes)
    (unique : ∀ other, homes e other → other = record)
    (bound : ∀ b ∈ imports.values, s.Bound record b) :
    (s.modifyEnvironment e fun environment => { environment with imports }).Sound homes := by
  have keeps : s.Keeps (s.modifyEnvironment e fun environment => { environment with imports }) :=
    { Keeps.refl s with }
  refine sound.step keeps (fun i slot known => .inl known) fun e' after known => ?_
  rw [environment?_modifyEnvironment] at known
  by_cases same : e = e'
  · subst same
    rw [if_pos rfl] at known
    obtain ⟨before, known', rfl⟩ := Option.map_eq_some_iff.mp known
    refine ⟨before, known', rfl, .inr fun other home => ?_⟩
    have houses := (sound.houses e other before home known').kept keeps
    refine { houses with imports := fun b member => ?_ }
    rw [unique other home]
    exact (bound b member).kept keeps
  · rw [if_neg same] at known
    exact ⟨after, known, rfl, .inl rfl⟩

end Store

/-- A module has a given environment and record. -/
def Registry.HomeOf (r : Registry κ) (m : ModuleId) (e : EnvironmentId) (record : Record κ) : Prop :=
  ∃ i, r.get? m = some i ∧ i.environment = some e ∧ i.record = record

/-- The environment that belongs to some module with a given record. -/
def Registry.Home (r : Registry κ) (e : EnvironmentId) (record : Record κ) : Prop :=
  ∃ m, r.HomeOf m e record

/-- Each linked module has an environment of its own, which bears its identity, and the
store is sound for them. -/
structure Links.Housed (l : Links κ) : Prop where
  sound : l.store.Sound l.registry.Home
  apart : ∀ m m' i i' e, l.registry.get? m = some i → l.registry.get? m' = some i' →
    i.environment = some e → i'.environment = some e → m = m'
  present : ∀ m i e, l.registry.get? m = some i → i.environment = some e →
    ∃ environment, l.store.environment? e = some environment ∧ environment.identity = i.identity

/-- Linking goes on from a store with `n` environments, which it leaves alone. -/
structure Links.Extends (n : Nat) (l l' : Links κ) : Prop where
  keeps : l.store.Keeps l'.store
  old : ∀ e, e.index < n → l'.store.environment? e = l.store.environment? e
  more : l.store.environments.size ≤ l'.store.environments.size
  intact : l.store.Intact → l'.store.Intact
  genuine : l.store.Genuine → l'.store.Genuine

namespace Links

variable {l l' : Links κ} {m : ModuleId} {n : Nat}

theorem Extends.refl (l : Links κ) : Extends n l l :=
  ⟨.refl _, fun _ _ => rfl, Nat.le_refl _, id, id⟩

theorem Extends.trans {l'' : Links κ} (first : Extends n l l') (second : Extends n l' l'') :
    Extends n l l'' :=
  ⟨first.keeps.trans second.keeps, fun e inside => (second.old e inside).trans (first.old e inside),
    Nat.le_trans first.more second.more, second.intact ∘ first.intact,
    second.genuine ∘ first.genuine⟩

theorem Extends.grows (extends_ : Extends l.store.environments.size l l') :
    l.store.Grows l'.store := by
  refine ⟨extends_.keeps, fun e environment known => ⟨environment.entities, ?_⟩⟩
  rw [extends_.old e (Array.getElem?_eq_some_iff.mp known).1, known]

theorem Housed.unique {i : Instance κ} {e : EnvironmentId} (housed : l.Housed)
    (known : l.registry.get? m = some i) (environment : i.environment = some e)
    {other : Record κ} (home : l.registry.Home e other) : other = i.record := by
  obtain ⟨m', i', known', environment', rfl⟩ := home
  have same := housed.apart m m' i i' e known known' environment environment'
  subst same
  cases known.symm.trans known'
  rfl

theorem Housed.within {e : EnvironmentId} {record : Record κ} (housed : l.Housed)
    (home : l.registry.Home e record) : e.index < l.store.environments.size := by
  obtain ⟨m, i, known, environment, _⟩ := home
  obtain ⟨held, there, _⟩ := housed.present m i e known environment
  exact (Array.getElem?_eq_some_iff.mp there).1

/-- Staging either changes nothing or gives a module a new environment that fits it. -/
private theorem stage_cases (fits : ∀ i, l.registry.get? m = some i → i.record.WellFormed) :
    l.stage m = l ∨ ∃ i s₁ environment, l.registry.get? m = some i ∧
      l.store.Furnished s₁ ∧ s₁.Houses i.record environment ∧
      s₁.Owned environment.identity environment.locals ∧ environment.identity = i.identity ∧
      l.stage m = ⟨l.registry.modify m fun i => { i with
        environment := some ⟨s₁.environments.size⟩ }, (s₁.addEnvironment environment).2⟩ := by
  unfold stage
  cases known : l.registry.get? m with
  | none => exact .inl rfl
  | some i =>
    by_cases linked : i.isLinked = true
    · exact .inl (if_pos linked)
    · obtain ⟨s₁, environment, made, furnished, houses, owned, named⟩ :=
        Store.allocate_spec l.store i.identity (fits i known)
      refine .inr ⟨i, s₁, environment, rfl, furnished, houses, owned, named, ?_⟩
      simp only [if_neg linked, made]
      rfl

/-- A module that is staged gets an environment that nobody had. -/
theorem housed_stage (housed : l.Housed)
    (fits : ∀ i, l.registry.get? m = some i → i.record.WellFormed)
    (room : n ≤ l.store.environments.size) :
    (l.stage m).Housed ∧ Extends n l (l.stage m) ∧ ∀ x j e, (l.stage m).registry.get? x = some j →
      j.environment = some e → l.registry.get? x = some j ∨ n ≤ e.index := by
  rcases stage_cases fits with
    same | ⟨i, s₁, environment, known, furnished, houses, owned, named, made⟩
  · rw [same]
    exact ⟨housed, .refl l, fun _ _ _ held _ => .inl held⟩
  rw [made]
  have size : s₁.environments.size = l.store.environments.size := by rw [furnished.environments]
  have grown := Store.grows_addEnvironment s₁ environment
  have reads : ∀ x j, (l.registry.modify m fun i => { i with
      environment := some ⟨s₁.environments.size⟩ }).get? x = some j →
      l.registry.get? x = some j ∨
        x = m ∧ j.environment = some ⟨s₁.environments.size⟩ ∧ j.record = i.record ∧
          j.identity = i.identity := by
    intro x j held
    rw [Registry.get?_modify] at held
    by_cases same : m = x
    · subst same
      rw [if_pos rfl, known] at held
      cases held
      exact .inr ⟨rfl, rfl, rfl, rfl⟩
    · rw [if_neg same] at held
      exact .inl held
  -- No module that was linked before has the new environment.
  have fresh : ∀ x j, l.registry.get? x = some j → j.environment ≠ some ⟨s₁.environments.size⟩ := by
    intro x j known' environment'
    have inside := housed.within ⟨x, j, known', environment', rfl⟩
    simp only at inside
    omega
  refine ⟨⟨?_, fun x y j j' e here there one other => ?_, fun x j e held home => ?_⟩,
    ⟨furnished.keeps.trans grown.toKeeps, fun e inside => ?_, ?_,
      fun intact => (furnished.intact intact).grows rfl rfl grown,
      fun genuine => (furnished.genuine genuine).addEnvironment houses.filled⟩,
      fun x j e held home => ?_⟩
  · refine (housed.sound.furnished furnished).addEnvironment houses owned
      (fun e record home => ?_) fun e other home => ?_
    · rw [size]
      exact housed.within home
    · obtain ⟨x, j, held, environment', rfl⟩ := home
      rcases reads x j held with old | ⟨_, new, record, _⟩
      · exact .inl ⟨x, j, old, environment', rfl⟩
      · cases environment'.symm.trans new
        exact .inr ⟨rfl, record⟩
  · rcases reads x j here with old | ⟨rfl, new, _⟩ <;> rcases reads y j' there with old' | ⟨rfl, new', _⟩
    · exact housed.apart x y j j' e old old' one other
    · exact absurd (one.trans (other.symm.trans new')) (fresh x j old)
    · exact absurd (other.trans (one.symm.trans new)) (fresh y j' old')
    · rfl
  · rcases reads x j held with old | ⟨_, new, _, identity⟩
    · obtain ⟨before, there, mine⟩ := housed.present x j e old home
      rw [Store.environment?, ← furnished.environments, ← Store.environment?] at there
      obtain ⟨entities, there⟩ := grown.environments e before there
      exact ⟨_, there, mine⟩
    · cases home.symm.trans new
      exact ⟨environment, by simp [Store.addEnvironment, Store.environment?],
        named.trans identity.symm⟩
  · have apart : e.index ≠ l.store.environments.size := by omega
    simp only [Store.addEnvironment, Store.environment?, Array.getElem?_push, furnished.environments,
      if_neg apart]
  · simp only [Store.addEnvironment, Array.size_push]
    omega
  · apply (reads x j held).imp_right
    intro new
    cases home.symm.trans new.2.1
    simp only
    omega

theorem record_stage {x : ModuleId} {j : Instance κ} (held : (l.stage m).registry.get? x = some j) :
    ∃ i, l.registry.get? x = some i ∧ i.record = j.record := by
  rw [get?_stage] at held
  split at held
  · obtain ⟨i, known, rfl⟩ := Option.map_eq_some_iff.mp held
    exact ⟨i, known, rfl⟩
  · exact ⟨j, held, rfl⟩

/-- A linked module with its environment. -/
structure Lives (l : Links κ) (m : ModuleId) (i : Instance κ) (e : EnvironmentId)
    (environment : Environment) : Prop where
  known : l.registry.get? m = some i
  home : i.environment = some e
  present : l.store.environment? e = some environment

theorem Lives.linked {i : Instance κ} {e : EnvironmentId} {environment : Environment}
    (lives : l.Lives m i e environment) : l.registry.Linked m :=
  Registry.linked_of_home lives.known lives.home

/-- A module that has an environment after a stage has had it before, or gets it now. -/
theorem lives_stage {x : ModuleId} {j : Instance κ} {e : EnvironmentId}
    {environment : Environment} (housed : l.Housed)
    (fits : ∀ i, l.registry.get? m = some i → i.record.WellFormed)
    (lives : (l.stage m).Lives x j e environment) : l.Lives x j e environment ∨
      ∃ i, l.registry.get? m = some i ∧ j.record = i.record ∧
        (l.store.allocate i.identity i.record).2.environment?
          (l.store.allocate i.identity i.record).1 = some environment := by
  obtain ⟨_, extends_, _⟩ := housed_stage housed fits (Nat.le_refl _)
  obtain ⟨known, home, present⟩ := lives
  by_cases before : l.registry.Linked x
  · rw [linked_stage before] at known
    rw [extends_.old e (housed.within ⟨x, j, known, home, rfl⟩)] at present
    exact .inl ⟨known, home, present⟩
  rw [get?_stage] at known
  split at known
  · next same =>
    subst same
    obtain ⟨i, was, rfl⟩ := Option.map_eq_some_iff.mp known
    have unlinked : i.environment = none := by
      rw [← Option.not_isSome_iff_eq_none]
      exact fun linked => before ⟨i, was, linked⟩
    have store : (l.stage m).store = (l.store.allocate i.identity i.record).2 := by
      simp [stage, was, Instance.isLinked, unlinked]
    have here : e = (l.store.allocate i.identity i.record).1 := by
      simpa [unlinked, eq_comm] using home
    rw [here, store] at present
    exact .inr ⟨i, was, rfl, present⟩
  · exact absurd (Registry.linked_of_home known home) before

/-- Modules that are staged one after the other get environments that nobody had. -/
theorem housed_staged (ms : List ModuleId) (housed : l.Housed)
    (fits : ∀ x i, l.registry.get? x = some i → i.record.WellFormed)
    (room : n ≤ l.store.environments.size) :
    (ms.foldl stage l).Housed ∧ Extends n l (ms.foldl stage l) ∧
      (∀ x j, (ms.foldl stage l).registry.get? x = some j → j.record.WellFormed) ∧
      ∀ x j e, (ms.foldl stage l).registry.get? x = some j → j.environment = some e →
        l.registry.get? x = some j ∨ n ≤ e.index := by
  induction ms generalizing l with
  | nil => exact ⟨housed, .refl l, fits, fun _ _ _ held _ => .inl held⟩
  | cons m rest ih =>
    obtain ⟨first, step, fresh⟩ := housed_stage housed (fits m) room
    obtain ⟨last, steps, fits', fresh'⟩ := ih first (fun x j held => by
      obtain ⟨i, known, same⟩ := record_stage held
      exact same ▸ fits x i known) (Nat.le_trans room step.more)
    refine ⟨last, step.trans steps, fits', fun x j e held home => ?_⟩
    rcases fresh' x j e held home with old | new
    · exact fresh x j e old home
    · exact .inr new

/-- A module that is to be linked gets an environment that nobody had. -/
theorem home_of_pending {g : ModuleGraph} (housed : l.Housed)
    (fits : ∀ x i, l.registry.get? x = some i → i.record.WellFormed) (member : m ∈ l.pending g)
    {i : Instance κ} {e : EnvironmentId}
    (known : ((l.pending g).foldl stage l).registry.get? m = some i)
    (home : i.environment = some e) : l.store.environments.size ≤ e.index := by
  obtain ⟨_, _, _, fresh⟩ := housed_staged (l.pending g) housed fits (Nat.le_refl _)
  apply (fresh m i e known home).resolve_left
  intro old
  exact not_mem_pending (Registry.linked_of_home old home) member

/-! ## Binding -/

section Binding

variable {i : Instance κ}

theorem mem_values_put {α : Type} {scope : Scope α} {name : String} {a b : α}
    (member : b ∈ (scope.put name a).values) : b = a ∨ b ∈ scope.values := by
  have inEntries : ∀ entries : List (String × α), b ∈ (Scope.putIn name a entries).map (·.2) →
      b = a ∨ b ∈ entries.map (·.2) := by
    intro entries
    induction entries with
    | nil => simp [Scope.putIn]
    | cons entry rest ih =>
      intro member
      unfold Scope.putIn at member
      split at member
      · rcases List.mem_cons.mp member with rfl | member
        · exact .inl rfl
        · exact .inr (List.mem_cons_of_mem _ member)
      · rcases List.mem_cons.mp member with rfl | member
        · exact .inr List.mem_cons_self
        · exact (ih member).imp_right (List.mem_cons_of_mem _)
  exact inEntries scope.entries member

/-- A resolved import is bound as it is declared. -/
theorem bound_resolveImport {decl : ImportDecl} {binding : ImportBinding}
    (fits : i.record.WellFormed) (declared : decl ∈ i.record.imports)
    (ran : resolveImport l i decl = .ok (binding, l')) :
    l.store.Furnished l'.store ∧ l'.store.Bound i.record binding := by
  obtain ⟨target, origin, slot, owner, _, _, _, checked, rfl, rfl⟩ := resolveImport_eq_ok ran
  obtain ⟨slotted, made⟩ := Store.furnished_addSlot l.store
    ⟨i.identity, decl.localName, decl.kind, decl.type, .uninitialized⟩
    (fits.imports decl declared).kind (fun _ => rfl) nofun
  refine ⟨slotted, ⟨decl, declared, rfl, rfl, rfl⟩, made.typed, fun binary live => ?_⟩
  have ownerBinary : owner.kind = .binary := by
    unfold bindingMode at live
    split at live
    · rename_i same
      exact same.symm.trans binary
    · cases live
  have checked := checked binary ownerBinary
  cases held : l.store.slot? slot with
  | none =>
    rw [held] at checked
    exact absurd rfl (Store.checkLink_typed checked)
  | some there =>
    rw [held] at checked
    obtain ⟨content, known⟩ := slotted.keeps.slots slot there held
    exact ⟨_, known, checked⟩

theorem bound_resolveImports (fits : i.record.WellFormed) {decls : List ImportDecl}
    (declared : ∀ decl ∈ decls, decl ∈ i.record.imports) {bindings bindings' : Scope ImportBinding}
    (bound : ∀ b ∈ bindings.values, l.store.Bound i.record b)
    (ran : resolveImports i decls bindings l = .ok (bindings', l')) :
    l.store.Furnished l'.store ∧ ∀ b ∈ bindings'.values, l'.store.Bound i.record b := by
  induction decls generalizing bindings l with
  | nil =>
    cases ran
    exact ⟨.refl _, bound⟩
  | cons decl rest ih =>
    obtain ⟨⟨binding, between⟩, first, others⟩ := bind_eq_ok ran
    obtain ⟨furnished, here⟩ := bound_resolveImport fits (declared decl List.mem_cons_self) first
    obtain ⟨furnished', all⟩ := ih (fun other member => declared other (List.mem_cons_of_mem _ member))
      (fun b member => by
        rcases mem_values_put member with rfl | member
        · exact here
        · exact (bound b member).kept furnished.keeps) others
    exact ⟨furnished.trans furnished', all⟩

/-- Binding a module that was linked just now sets its imports. -/
theorem housed_bindModule (housed : l.Housed)
    (fits : ∀ i, l.registry.get? m = some i → i.record.WellFormed)
    (fresh : ∀ i e, l.registry.get? m = some i → i.environment = some e → n ≤ e.index)
    (ran : bindModule l m = .ok l') : l'.Housed ∧ Extends n l l' := by
  rcases bindModule_cases ran with
    rfl | ⟨i, e, imports, between, known, environment, binds, rfl⟩
  · exact ⟨housed, .refl _⟩
  have registry := registry_resolveImports binds
  obtain ⟨furnished, bound⟩ := bound_resolveImports (fits i known) (fun _ member => member)
    (by simp [Scope.values, Scope.empty]) binds
  have reads : ∀ e', (between.store.modifyEnvironment e fun env => { env with imports }).environment? e' =
      if e = e' then (l.store.environment? e').map fun env => { env with imports }
      else l.store.environment? e' := fun e' => by
    rw [Store.environment?_modifyEnvironment, Store.environment?, furnished.environments,
      ← Store.environment?]
  refine ⟨⟨?_, ?_, fun x j e' held home => ?_⟩, furnished.keeps.trans { Store.Keeps.refl _ with },
    fun e' inside => ?_, ?_, fun intact => (furnished.intact intact).same rfl rfl ?_,
    fun genuine => (furnished.genuine genuine).modifyEnvironment fun _ => rfl⟩
  · rw [registry]
    exact (housed.sound.furnished furnished).setImports
      (fun other home => housed.unique known environment home) bound
  · rw [registry]
    exact housed.apart
  · rw [registry] at held
    obtain ⟨before, there, mine⟩ := housed.present x j e' held home
    simp only [reads, there]
    split
    · exact ⟨_, rfl, mine⟩
    · exact ⟨_, rfl, mine⟩
  · have later := fresh i e known environment
    have apart : e ≠ e' := fun same => by
      subst same
      omega
    simp only [reads, if_neg apart]
  · simp only [Store.modifyEnvironment, Array.size_modify, furnished.environments, Nat.le_refl]
  · rintro e' ⟨environment, there⟩
    rw [Store.Present, Store.environment?_modifyEnvironment, there]
    split
    · exact ⟨_, rfl⟩
    · exact ⟨_, rfl⟩

theorem housed_bindAll {ms : List ModuleId} (housed : l.Housed)
    (fits : ∀ x i, l.registry.get? x = some i → i.record.WellFormed)
    (fresh : ∀ m ∈ ms, ∀ i e, l.registry.get? m = some i → i.environment = some e → n ≤ e.index)
    (ran : ms.foldlM bindModule l = .ok l') : l'.Housed ∧ Extends n l l' := by
  induction ms generalizing l with
  | nil =>
    cases ran
    exact ⟨housed, .refl _⟩
  | cons m rest ih =>
    rw [List.foldlM_cons] at ran
    obtain ⟨between, first, others⟩ := bind_eq_ok ran
    obtain ⟨here, step⟩ := housed_bindModule housed (fits m) (fresh m List.mem_cons_self) first
    have registry := registry_bindModule first
    obtain ⟨last, steps⟩ := ih here (by rwa [registry])
      (fun x member => by
        rw [registry]
        exact fresh x (List.mem_cons_of_mem _ member)) others
    exact ⟨last, step.trans steps⟩

end Binding

/-- Adding components leaves all else of a module as it is. -/
private theorem before_addComponents (cs : List (List ModuleId)) {r : Registry κ} {x : ModuleId}
    {j : Instance κ} (held : (cs.foldl Registry.addComponent r).get? x = some j) :
    ∃ i, r.get? x = some i ∧ i.environment = j.environment ∧ i.record = j.record ∧
      i.identity = j.identity := by
  obtain ⟨component, change⟩ := Registry.get?_addComponents cs r x
  rw [held] at change
  obtain ⟨i, known, rfl⟩ := Option.map_eq_some_iff.mp change.symm
  exact ⟨i, known, rfl, rfl, rfl⟩

/-- Linking a graph gives the modules that were not linked environments of their own,
leaves the others alone, and keeps the store sound. -/
theorem housed_of_link {g : ModuleGraph} (housed : l.Housed) (stocked : l.registry.Stocked)
    (ran : link l g = .ok l') :
    l'.Housed ∧ Extends l.store.environments.size l l' ∧ ∀ e record, l'.registry.Home e record →
      l.registry.Home e record ∨ l.store.environments.size ≤ e.index := by
  obtain ⟨_, bound, binds, rfl⟩ := link_eq_ok ran
  have checked : ∀ x i, l.registry.get? x = some i → i.record.WellFormed := fun x i known =>
    Record.wellFormed_of_validate (stocked.checked x i known)
  obtain ⟨staged, first, fits, fresh⟩ :=
    housed_staged (l.pending g) housed checked (Nat.le_refl _)
  obtain ⟨all, second⟩ := housed_bindAll staged fits (fun m member i e known environment =>
    home_of_pending housed checked member known environment) binds
  refine ⟨⟨?_, fun x y j j' e here there one other => ?_, fun x j e held home => ?_⟩,
    first.trans ⟨second.keeps, second.old, second.more, second.intact, second.genuine⟩, ?_⟩
  · apply all.sound.rehouse
    rintro e record ⟨x, j, held, environment, rfl⟩
    obtain ⟨i, known, same, sameRecord, _⟩ := before_addComponents _ held
    exact .inl ⟨x, i, known, same.trans environment, sameRecord⟩
  · obtain ⟨i, known, same, _⟩ := before_addComponents _ here
    obtain ⟨i', known', same', _⟩ := before_addComponents _ there
    exact all.apart x y i i' e known known' (same.trans one) (same'.trans other)
  · obtain ⟨i, known, same, _, identity⟩ := before_addComponents _ held
    obtain ⟨there, present, mine⟩ := all.present x i e known (same.trans home)
    exact ⟨there, present, mine.trans identity⟩
  · rintro e record ⟨x, j, held, environment, rfl⟩
    obtain ⟨i, known, same, sameRecord, _⟩ := before_addComponents _ held
    rw [registry_bindAll binds] at known
    exact (fresh x i e known (same.trans environment)).imp_left fun old =>
      ⟨x, i, old, same.trans environment, sameRecord⟩

end Links
end MixedModules
