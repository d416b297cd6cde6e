import Mathlib.Data.List.Forall2
import Mathlib.Data.List.Nodup
import MixedModules.Graph.Construction
import MixedModules.Proofs.Registry.Growth

/-! What a build leaves behind, and the graph it gives.

However a build ends, modules were only added and given their dependencies. A graph
that a build gives shows the registry as it is: its nodes are registered modules, each
with the modules that its specifiers resolved to, and all of these are nodes too. -/
namespace MixedModules

theorem exists_of_forall₂ {α β : Type} {rel : α → β → Prop} {xs : List α} {ys : List β}
    (each : List.Forall₂ rel xs ys) : ∀ y ∈ ys, ∃ x ∈ xs, rel x y := by
  induction each with
  | nil => simp
  | cons head _ ih =>
    refine List.forall_mem_cons.mpr ⟨⟨_, List.mem_cons_self, head⟩, fun y member => ?_⟩
    obtain ⟨x, held, related⟩ := ih y member
    exact ⟨x, List.mem_cons_of_mem _ held, related⟩

namespace Loads

variable {κ ℓ α β : Type} {may : ModuleId → Prop} {stock : Stock κ ℓ}

/-- What a computation that loads modules gives, and what it leaves behind. -/
def outcome (x : Loads κ ℓ α) (stock : Stock κ ℓ) : Except Stop α × Stock κ ℓ := x stock

/-- From a registry in order the computation leads to a larger one in order, and if it
ends well, its result fits what it leaves behind. -/
def Yields (may : ModuleId → Prop) (x : Loads κ ℓ α) (stock : Stock κ ℓ)
    (post : α → Registry κ → Prop) : Prop :=
  stock.registry.Stocked →
    stock.registry.Grows may (x.outcome stock).2.registry ∧
      (x.outcome stock).2.registry.Stocked ∧
      ∀ a, (x.outcome stock).1 = .ok a → post a (x.outcome stock).2.registry

variable {post : α → Registry κ → Prop} {after : β → Registry κ → Prop}

theorem yields_pure {a : α} (holds : post a stock.registry) :
    Yields may (pure a : Loads κ ℓ α) stock post :=
  fun stocked => ⟨.refl _, stocked, fun _ same => by cases same; exact holds⟩

theorem yields_throw {reason : Stop} : Yields may (throw reason : Loads κ ℓ α) stock post :=
  fun stocked => ⟨.refl _, stocked, fun _ same => by cases same⟩

theorem outcome_bind (x : Loads κ ℓ α) (f : α → Loads κ ℓ β) (stock : Stock κ ℓ) :
    (x >>= f).outcome stock = match x.outcome stock with
      | (.ok a, between) => (f a).outcome between
      | (.error reason, between) => (.error reason, between) := by
  unfold outcome
  simp only [bind, ExceptT.bind, ExceptT.mk, StateT.bind, ExceptT.bindCont]
  rcases x stock with ⟨_ | _, _⟩ <;> rfl

theorem yields_bind {x : Loads κ ℓ α} {f : α → Loads κ ℓ β} (first : Yields may x stock post)
    (next : ∀ a between, stock.registry.Grows may between.registry → between.registry.Stocked →
      post a between.registry → Yields may (f a) between after) :
    Yields may (x >>= f) stock after := by
  intro stocked
  obtain ⟨grows, stocked', holds⟩ := first stocked
  rw [outcome_bind]
  rcases result : x.outcome stock with ⟨reason | a, between⟩
  · rw [result] at grows stocked'
    exact ⟨grows, stocked', fun _ same => by cases same⟩
  · rw [result] at grows stocked' holds
    obtain ⟨grows', stocked'', holds'⟩ := next a between grows stocked' (holds a rfl) stocked'
    exact ⟨grows.trans grows', stocked'', holds'⟩

theorem Yields.mono {x : Loads κ ℓ α} {other : ModuleId → Prop} {weaker : α → Registry κ → Prop}
    (yields : Yields may x stock post) (wider : ∀ m, may m → other m)
    (implies : ∀ a r, post a r → weaker a r) : Yields other x stock weaker := by
  intro stocked
  obtain ⟨grows, stocked', holds⟩ := yields stocked
  exact ⟨grows.mono wider, stocked', fun a same => implies a _ (holds a same)⟩

/-- The result comes with how the registry has grown. -/
theorem Yields.grown {x : Loads κ ℓ α} (yields : Yields may x stock post) :
    Yields may x stock fun a r => post a r ∧ stock.registry.Grows may r := by
  intro stocked
  obtain ⟨grows, stocked', holds⟩ := yields stocked
  exact ⟨grows, stocked', fun a same => ⟨holds a same, grows⟩⟩

theorem yields_get : Yields may (get : Loads κ ℓ (Stock κ ℓ)) stock
    fun s r => s = stock ∧ r = stock.registry :=
  fun stocked => ⟨.refl _, stocked, fun _ same => by cases same; exact ⟨rfl, rfl⟩⟩

theorem yields_set {next : Stock κ ℓ} {post : PUnit → Registry κ → Prop}
    (grows : stock.registry.Grows may next.registry)
    (stocked : stock.registry.Stocked → next.registry.Stocked) (holds : post ⟨⟩ next.registry) :
    Yields may (set next : Loads κ ℓ PUnit) stock post :=
  fun held => ⟨grows, stocked held, fun _ same => by cases same; exact holds⟩

theorem yields_modify {change : Stock κ ℓ → Stock κ ℓ} {post : PUnit → Registry κ → Prop}
    (grows : stock.registry.Grows may (change stock).registry)
    (stocked : stock.registry.Stocked → (change stock).registry.Stocked)
    (holds : post ⟨⟩ (change stock).registry) :
    Yields may (modify change : Loads κ ℓ PUnit) stock post :=
  fun held => ⟨grows, stocked held, fun _ same => by cases same; exact holds⟩

theorem yields_attempt {x : Loads κ ℓ α} (yields : Yields may x stock post) :
    Yields may x.attempt stock fun result r => ∀ a, result = .ok a → post a r := by
  intro stocked
  obtain ⟨grows, stocked', holds⟩ := yields stocked
  exact ⟨grows, stocked', fun result same a ended => holds a (by cases same; exact ended)⟩

theorem yields_mapM {f : α → Loads κ ℓ β} {post : α → β → Registry κ → Prop} (xs : List α)
    (each : ∀ a ∈ xs, ∀ between, stock.registry.Grows may between.registry →
      Yields may (f a) between (post a))
    (lasting : ∀ a b r r', post a b r → r.Grows may r' → post a b r') :
    Yields may (xs.mapM f) stock fun bs r => List.Forall₂ (fun a b => post a b r) xs bs := by
  induction xs generalizing stock with
  | nil =>
    rw [List.mapM_nil]
    exact yields_pure .nil
  | cons a rest ih =>
    rw [List.mapM_cons]
    apply yields_bind (each a List.mem_cons_self stock (.refl _))
    intro b between grows _ holds
    have others := ih fun other member last further =>
      each other (List.mem_cons_of_mem _ member) last (grows.trans further)
    refine yields_bind others fun bs last further _ rest => yields_pure ?_
    exact .cons (lasting a b _ _ holds further) rest

/-! ## Loading -/

variable {resolver : Specifier.Resolver} {loader : Loader κ ℓ} {identity : String}
  {m : ModuleId}

theorem outcome_get (stock : Stock κ ℓ) :
    (get : Loads κ ℓ (Stock κ ℓ)).outcome stock = (.ok stock, stock) := rfl

theorem outcome_set (next stock : Stock κ ℓ) :
    (set next : Loads κ ℓ PUnit).outcome stock = (.ok ⟨⟩, next) := rfl

/-- What a load comes to, by what the loader hands over. -/
theorem outcome_load (loader : Loader κ ℓ) (identity : String) (stock : Stock κ ℓ) :
    (load loader identity).outcome stock =
      match loader identity stock.source with
      | (.record record, source) => match record.validate with
        | .ok _ => (.ok (stock.registry.register identity record).1,
            ⟨(stock.registry.register identity record).2, source⟩)
        | .error fault =>
          (.error (.failed (.malformed identity fault.message)), ⟨stock.registry, source⟩)
      | (.unfetched message, source) =>
        (.error (.failed (.fetch identity message)), ⟨stock.registry, source⟩)
      | (.unparsed message, source) =>
        (.error (.failed (.malformed identity message)), ⟨stock.registry, source⟩)
      | (.crashed, source) => (.error .crashed, ⟨stock.registry, source⟩) := by
  unfold load
  rw [outcome_bind, outcome_get]
  rcases handed : loader identity stock.source with ⟨loaded, source⟩
  simp only [handed, outcome_bind, outcome_set]
  cases loaded with
  | record record =>
    simp only
    cases record.validate <;> rfl
  | unfetched message => rfl
  | unparsed message => rfl
  | crashed => rfl

/-- A request loads only what is not registered. -/
theorem outcome_obtain (loader : Loader κ ℓ) (identity : String) (stock : Stock κ ℓ) :
    (obtain loader identity).outcome stock =
      match stock.registry.lookup identity with
      | some m => (.ok m, stock)
      | none => (load loader identity).outcome stock := by
  unfold obtain
  rw [outcome_bind, outcome_get]
  dsimp only
  cases stock.registry.lookup identity <;> rfl

theorem yields_load : Yields may (load loader identity) stock
    fun m r => ∃ i, r.get? m = some i ∧ i.identity = identity := by
  unfold load
  refine yields_bind yields_get fun before between _ _ ⟨same, here⟩ => ?_
  subst same
  rcases loader identity before.source with ⟨loaded, source⟩
  have noted : Yields may (set (Stock.mk before.registry source) : Loads κ ℓ PUnit) between
      fun _ r => r = before.registry :=
    yields_set (here ▸ .refl _) (fun stocked => here ▸ stocked) rfl
  apply yields_bind noted
  intro _ last _ stocked same
  cases loaded with
  | unfetched message => exact yields_throw
  | unparsed message => exact yields_throw
  | crashed => exact yields_throw
  | record record =>
    dsimp only
    cases check : record.validate with
    | error fault => exact yields_throw
    | ok passed =>
      have grows : before.registry.Grows may (before.registry.register identity record).2 :=
        Registry.grows_register before.registry identity record
      have added := Registry.get?_register before.registry identity record ⟨before.registry.size⟩
      have stored : Yields may
          (set (Stock.mk (before.registry.register identity record).2 source) : Loads κ ℓ PUnit) last
          fun _ r => ∃ i, r.get? (before.registry.register identity record).1 = some i ∧
            i.identity = identity := by
        refine yields_set (same ▸ grows) (fun _ => ?_) ⟨_, added.trans (if_pos rfl), rfl⟩
        rw [← same]
        exact stocked.register check
      exact yields_bind stored fun _ _ _ _ known => yields_pure known

theorem yields_obtain : Yields may (obtain loader identity) stock
    fun m r => ∃ i, r.get? m = some i ∧ i.identity = identity := by
  unfold obtain
  refine yields_bind yields_get fun before between _ _ ⟨same, here⟩ => ?_
  subst same
  cases found : before.registry.lookup identity with
  | none => exact yields_load
  | some m =>
    obtain ⟨i, known, named⟩ := Registry.get?_lookup found
    exact yields_pure ⟨i, here ▸ known, named⟩

theorem yields_instanceOf :
    Yields may (instanceOf m : Loads κ ℓ (Instance κ)) stock fun i r => r.get? m = some i := by
  unfold instanceOf
  refine yields_bind yields_get fun before between _ _ ⟨same, here⟩ => ?_
  subst same
  cases known : before.registry.get? m with
  | none => exact yields_throw
  | some i => exact yields_pure (here ▸ known)

theorem yields_resolve {specifier : String} {referrer : Option String} :
    Yields may (resolve resolver specifier referrer : Loads κ ℓ String) stock fun _ _ => True := by
  unfold resolve
  split
  · exact yields_pure trivial
  · exact yields_throw

private theorem names_and_targets {requested : List String} {found : Dependencies}
    {r : Registry κ} (each : List.Forall₂ (fun specifier (d : String × ModuleId) =>
      d.1 = specifier ∧ ∃ j, r.get? d.2 = some j) requested found) :
    found.map (·.1) = requested ∧ ∀ d ∈ found, ∃ j, r.get? d.2 = some j := by
  induction each with
  | nil => exact ⟨rfl, by simp⟩
  | cons head _ ih =>
    refine ⟨by simp [head.1, ih.1], fun d member => ?_⟩
    rcases List.mem_cons.mp member with rfl | member
    · exact head.2
    · exact ih.2 d member

/-- The dependencies that an expansion gives are those the module keeps. -/
theorem yields_expand : Yields (· = m) (expand resolver loader m) stock
    fun dependencies r => r.Resolved m dependencies := by
  unfold expand
  apply yields_bind yields_instanceOf
  intro i between _ _ known
  cases resolved : i.dependencies with
  | some dependencies => exact yields_pure ⟨i, known, resolved⟩
  | none =>
    have obtains : Yields (fun _ => False) (i.record.requested.mapM fun specifier => do
        let identity ← resolve resolver specifier (some i.identity)
        return (specifier, ← obtain loader identity)) between fun found r =>
          List.Forall₂ (fun specifier (d : String × ModuleId) =>
            d.1 = specifier ∧ ∃ j, r.get? d.2 = some j) i.record.requested found := by
      refine yields_mapM _ (fun specifier _ last _ => ?_) fun _ _ _ _ ⟨same, known⟩ grows =>
        ⟨same, grows.registered known⟩
      apply yields_bind yields_resolve
      intro identity _ _ _ _
      exact yields_bind yields_obtain fun _ _ _ _ ⟨i, known, _⟩ => yields_pure ⟨rfl, i, known⟩
    refine yields_bind (obtains.grown.mono (fun _ no => no.elim) fun _ _ held => held)
      fun found last _ stocked ⟨holds, grows⟩ => ?_
    have known' := grows.unchanged not_false known
    obtain ⟨names, targets⟩ := names_and_targets holds
    have here := Registry.get?_setDependencies last.registry m m found
    have keeps : Yields (· = m) (modify fun stock => { stock with
        registry := stock.registry.setDependencies m found } : Loads κ ℓ PUnit) last
        fun _ r => r.Resolved m found := by
      refine yields_modify (Registry.grows_setDependencies last.registry m found)
        (fun _ => stocked.setDependencies known' names targets)
        ⟨{ i with dependencies := some found }, ?_, rfl⟩
      simpa [known', resolved] using here
    exact yields_bind keeps fun _ _ _ _ held => yields_pure held

theorem yields_expandBeside :
    Yields (· = m) (expandBeside resolver loader m) stock
      fun result r => ∀ dependencies, result = .ok dependencies → r.Resolved m dependencies := by
  unfold expandBeside
  apply yields_bind (yields_attempt yields_expand)
  intro result between _ _ holds
  split
  · refine yields_bind yields_get fun _ _ _ _ _ => yields_pure ?_
    rintro dependencies same
    cases same
  · exact yields_pure holds

theorem pieces_flatten {α : Type} (size : Nat) (xs : List α) :
    (pieces size xs).flatten = xs := by
  fun_induction pieces size xs with
  | case1 => rfl
  | case2 x rest ih => simp [ih]

theorem forall₂_flatten {α β : Type} {rel : α → β → Prop} {xss : List (List α)}
    {yss : List (List β)} (each : List.Forall₂ (List.Forall₂ rel) xss yss) :
    List.Forall₂ rel xss.flatten yss.flatten := by
  induction each with
  | nil => exact .nil
  | cons head _ ih => exact List.rel_append head ih

theorem yields_liftM {result : Except Stop α} :
    Yields may (liftM result : Loads κ ℓ α) stock fun a _ => result = .ok a := by
  cases result with
  | error reason => exact yields_throw
  | ok a => exact yields_pure rfl

private theorem resolved_of_results {r : Registry κ} {piece : List ModuleId}
    {results : List (Except Stop Dependencies)} {expanded : List Dependencies}
    (each : List.Forall₂ (fun m result => ∀ dependencies, result = .ok dependencies →
      r.Resolved m dependencies) piece results)
    (ended : List.Forall₂ (fun result d => result = .ok d) results expanded) :
    List.Forall₂ (fun m d => r.Resolved m d) piece expanded := by
  induction each generalizing expanded with
  | nil =>
    cases ended
    exact .nil
  | cons head _ ih =>
    cases ended with
    | cons same rest => exact .cons (head _ same) (ih rest)

/-- The modules of a piece are all expanded before the first failure counts. -/
theorem yields_piece (piece : List ModuleId) :
    Yields (· ∈ piece) (do
      let results ← piece.mapM (expandBeside resolver loader)
      results.mapM fun result => (liftM result : Loads κ ℓ Dependencies)) stock
      fun expanded r => List.Forall₂ (fun m d => r.Resolved m d) piece expanded := by
  have tried : Yields (· ∈ piece) (piece.mapM (expandBeside resolver loader)) stock
      fun results r => List.Forall₂ (fun m result => ∀ dependencies, result = .ok dependencies →
        r.Resolved m dependencies) piece results := by
    refine yields_mapM piece (fun m member between _ => ?_) ?_
    · exact yields_expandBeside.mono (fun _ same => same ▸ member) fun _ _ held => held
    · exact fun _ _ _ _ held grows dependencies same => (held dependencies same).grows grows
  apply yields_bind tried
  intro results between _ _ each
  have ends : Yields (· ∈ piece)
      (results.mapM fun result => (liftM result : Loads κ ℓ Dependencies)) between
      fun expanded _ => List.Forall₂ (fun result d => result = .ok d) results expanded :=
    yields_mapM results (fun _ _ _ _ => yields_liftM) fun _ _ _ _ same _ => same
  refine ends.grown.mono (fun _ member => member) fun expanded r ⟨ended, grows⟩ => ?_
  refine resolved_of_results (each.imp fun m result held dependencies same => ?_) ended
  exact (held dependencies same).grows grows

theorem yields_pieces {r : Registry κ} {parts : List (List ModuleId)} :
    ∀ piece ∈ parts, ∀ between : Stock κ ℓ, r.Grows (fun _ => True) between.registry →
      Yields (fun _ => True) (do
        let results ← piece.mapM (expandBeside resolver loader)
        results.mapM fun result => (liftM result : Loads κ ℓ Dependencies)) between
        fun _ _ => True :=
  fun piece _ _ _ => (yields_piece piece).mono (fun _ _ => trivial) fun _ _ _ => trivial

/-- Expansion goes through a whole round, however many modules it takes at a time. -/
theorem yields_expandAll {concurrency : Nat} {round : List ModuleId} :
    Yields (· ∈ round) (expandAll resolver loader concurrency round) stock
      fun expanded r => List.Forall₂ (fun m d => r.Resolved m d) round expanded := by
  unfold expandAll
  split
  · refine yields_mapM round (fun m member between _ => ?_) fun _ _ _ _ resolved => resolved.grows
    exact yields_expand.mono (fun _ same => same ▸ member) fun _ _ held => held
  · have expands : Yields (· ∈ round) ((pieces (concurrency - 1) round).mapM fun piece => do
        let results ← piece.mapM (expandBeside resolver loader)
        results.mapM fun result => (liftM result : Loads κ ℓ Dependencies)) stock
        fun results r => List.Forall₂ (fun piece expanded =>
          List.Forall₂ (fun m d => r.Resolved m d) piece expanded)
          (pieces (concurrency - 1) round) results := by
      refine yields_mapM _ (fun piece member between _ => ?_) ?_
      · refine (yields_piece piece).mono (fun m inside => ?_) fun _ _ held => held
        rw [← pieces_flatten (concurrency - 1) round]
        exact List.mem_flatten_of_mem member inside
      · exact fun _ _ _ _ held grows => held.imp fun _ _ resolved => resolved.grows grows
    refine yields_bind expands fun results between _ _ each => yields_pure ?_
    have all := forall₂_flatten each
    rwa [pieces_flatten] at all

end Loads

/-! ## Drawing -/

namespace ModuleGraph

variable {κ : Type} {g : ModuleGraph} {r r' : Registry κ} {edges : ModuleId → ModuleId → Prop}
  {m source target : ModuleId}

theorem contains_iff : g.contains m = true ↔ m ∈ g.modules := by
  simp [contains, node?, modules, List.find?_isSome]

/-- Where keys are distinct, a search for the key of a member ends at this member. -/
theorem find?_of_nodup_map {α β : Type} [DecidableEq β] {key : α → β} {xs : List α} {x : α}
    (distinct : (xs.map key).Nodup) (member : x ∈ xs) :
    (xs.find? fun y => key y = key x) = some x := by
  have found : (xs.find? fun y => key y = key x).isSome :=
    List.find?_isSome.mpr ⟨x, member, by simp⟩
  obtain ⟨y, found⟩ := Option.isSome_iff_exists.mp found
  have same : key y = key x := by simpa using List.find?_some found
  rw [found, List.inj_on_of_nodup_map distinct (List.mem_of_find?_eq_some found) member same]

theorem node?_of_mem {n : Node} (distinct : g.modules.Nodup) (member : n ∈ g.nodes) :
    g.node? n.id = some n :=
  find?_of_nodup_map distinct member

theorem modules_addDependency (g : ModuleGraph) (source target : ModuleId) :
    (g.addDependency source target).modules = g.modules := by
  simp only [addDependency, modules, List.map_map]
  apply List.map_congr_left
  intro n _
  simp only [Function.comp_apply]
  split <;> rfl

/-- A graph whose nodes are registered modules, with given edges. -/
structure Drawn (r : Registry κ) (edges : ModuleId → ModuleId → Prop) (g : ModuleGraph) : Prop where
  distinct : g.modules.Nodup
  entry : g.entry ∈ g.modules
  shown : ∀ n ∈ g.nodes, ∃ i, r.get? n.id = some i ∧ n.identity = i.identity ∧ n.kind = i.kind
  drawn : ∀ n ∈ g.nodes, ∀ target, target ∈ n.dependencies ↔ edges n.id target
  inside : ∀ m target, edges m target → m ∈ g.modules ∧ target ∈ g.modules

namespace Drawn

theorem grows {may : ModuleId → Prop} (drawn : g.Drawn r edges) (grows : r.Grows may r') :
    g.Drawn r' edges := by
  refine { drawn with shown := fun n member => ?_ }
  obtain ⟨i, known, identity, kind⟩ := drawn.shown n member
  obtain ⟨_, known', _⟩ := grows.kept n.id i known
  exact ⟨_, known', identity, kind⟩

theorem congr {edges' : ModuleId → ModuleId → Prop} (drawn : g.Drawn r edges)
    (same : ∀ m target, edges m target ↔ edges' m target) : g.Drawn r edges' :=
  { drawn with
    drawn := fun n member target => (drawn.drawn n member target).trans (same n.id target)
    inside := fun m target edge => drawn.inside m target ((same m target).mpr edge) }

theorem addModule {i : Instance κ} (drawn : g.Drawn r edges) (known : r.get? m = some i)
    (new : m ∉ g.modules) :
    (g.addModule m i.identity i.kind).Drawn r edges ∧
      (g.addModule m i.identity i.kind).modules = g.modules ++ [m] := by
  have absent : g.contains m = false := by
    rw [Bool.eq_false_iff]
    exact fun holds => new (contains_iff.mp holds)
  have modules : (g.addModule m i.identity i.kind).modules = g.modules ++ [m] := by
    simp [ModuleGraph.addModule, absent, ModuleGraph.modules]
  have nodes : (g.addModule m i.identity i.kind).nodes = g.nodes ++ [⟨m, i.identity, i.kind, []⟩] := by
    simp [ModuleGraph.addModule, absent]
  have entry : (g.addModule m i.identity i.kind).entry = g.entry := by
    simp [ModuleGraph.addModule, absent]
  refine ⟨⟨?_, ?_, ?_, ?_, ?_⟩, modules⟩
  · rw [modules]
    refine List.nodup_append.mpr ⟨drawn.distinct, by simp, ?_⟩
    rintro x member _ last rfl
    exact new (List.mem_singleton.mp last ▸ member)
  · rw [modules, entry]
    exact List.mem_append_left _ drawn.entry
  · intro n member
    rw [nodes] at member
    rcases List.mem_append.mp member with old | last
    · exact drawn.shown n old
    · cases List.mem_singleton.mp last
      exact ⟨i, known, rfl, rfl⟩
  · intro n member target
    rw [nodes] at member
    rcases List.mem_append.mp member with old | last
    · exact drawn.drawn n old target
    · cases List.mem_singleton.mp last
      simpa using fun edge => new (drawn.inside m target edge).1
  · intro x target edge
    rw [modules]
    obtain ⟨here, there⟩ := drawn.inside x target edge
    exact ⟨List.mem_append_left _ here, List.mem_append_left _ there⟩

theorem addDependency (drawn : g.Drawn r edges) (here : source ∈ g.modules)
    (there : target ∈ g.modules) :
    (g.addDependency source target).Drawn r
      fun m t => edges m t ∨ m = source ∧ t = target := by
  have modules := modules_addDependency g source target
  have nodes : ∀ n ∈ (g.addDependency source target).nodes, ∃ old ∈ g.nodes,
      n.id = old.id ∧ n.identity = old.identity ∧ n.kind = old.kind ∧
        ∀ t, t ∈ n.dependencies ↔ t ∈ old.dependencies ∨ old.id = source ∧ t = target := by
    intro n member
    obtain ⟨old, held, rfl⟩ := List.mem_map.mp member
    refine ⟨old, held, ?_⟩
    split
    · next changes => simp [changes.1]
    · next keeps =>
      refine ⟨rfl, rfl, rfl, fun t => ⟨.inl, ?_⟩⟩
      rintro (already | ⟨same, rfl⟩)
      · exact already
      · exact by_contra fun absent => keeps ⟨same, absent⟩
  refine ⟨modules ▸ drawn.distinct, modules ▸ drawn.entry, fun n member => ?_,
    fun n member t => ?_, fun m t edge => ?_⟩
  · obtain ⟨old, held, id, identity, kind, _⟩ := nodes n member
    rw [id, identity, kind]
    exact drawn.shown old held
  · obtain ⟨old, held, id, _, _, dependencies⟩ := nodes n member
    rw [dependencies, id, drawn.drawn old held t]
  · rw [modules]
    rcases edge with edge | ⟨rfl, rfl⟩
    · exact drawn.inside m t edge
    · exact ⟨here, there⟩

theorem start {i : Instance κ} (known : r.get? m = some i) :
    (ModuleGraph.new m i.identity i.kind).Drawn r (fun _ _ => False) ∧
      (ModuleGraph.new m i.identity i.kind).modules = [m] := by
  have modules : (ModuleGraph.new m i.identity i.kind).modules = [m] := rfl
  refine ⟨⟨?_, ?_, ?_, ?_, fun _ _ no => no.elim⟩, modules⟩
  · rw [modules]
    exact List.pairwise_singleton _ m
  · rw [modules]
    exact List.mem_singleton_self m
  · intro n member
    cases List.mem_singleton.mp (show n ∈ [⟨m, i.identity, i.kind, []⟩] from member)
    exact ⟨i, known, rfl, rfl⟩
  · intro n member target
    cases List.mem_singleton.mp (show n ∈ [⟨m, i.identity, i.kind, []⟩] from member)
    simp

end Drawn
end ModuleGraph

namespace Growth

open Loads ModuleGraph

variable {κ ℓ : Type} {may : ModuleId → Prop} {stock : Stock κ ℓ} {limit : Nat}
  {base : List ModuleId} {edges : ModuleId → ModuleId → Prop}

/-- Within a round: some edges are drawn, and the modules found stand after those that
were there before. -/
def Reached (base : List ModuleId) (edges : ModuleId → ModuleId → Prop) (growth : Growth)
    (r : Registry κ) : Prop :=
  growth.graph.Drawn r edges ∧ growth.graph.modules = base ++ growth.found

theorem yields_connect {source target : ModuleId} {growth : Growth} (member : source ∈ base)
    (reached : growth.Reached base edges stock.registry) :
    Yields may (connect limit source growth target : Loads κ ℓ Growth) stock
      fun growth r => growth.Reached base (fun m t => edges m t ∨ m = source ∧ t = target) r := by
  have draws : ∀ (growth : Growth) (between : Stock κ ℓ), growth.Reached base edges between.registry →
      target ∈ growth.graph.modules →
      Yields may (pure { growth with graph := growth.graph.addDependency source target } :
        Loads κ ℓ Growth) between
        fun growth r => growth.Reached base (fun m t => edges m t ∨ m = source ∧ t = target) r := by
    intro growth between ⟨drawn, modules⟩ there
    refine yields_pure ⟨drawn.addDependency ?_ there, ?_⟩
    · rw [modules]
      exact List.mem_append_left _ member
    · rw [modules_addDependency, modules]
  unfold connect
  dsimp only
  split
  · next held =>
    rw [pure_bind]
    exact draws growth stock reached (contains_iff.mp held)
  · next new =>
    obtain ⟨drawn, modules⟩ := reached
    split
    · have stops : Yields may (Loads.fail (.tooLarge limit) : Loads κ ℓ Growth) stock
          fun _ _ => False := yields_throw
      exact yields_bind stops fun _ _ _ _ no => no.elim
    · apply yields_bind yields_instanceOf
      intro i between grows _ known
      obtain ⟨drawn', modules'⟩ := (drawn.grows grows).addModule known
        fun held => new (contains_iff.mpr held)
      rw [pure_bind]
      refine draws _ between ⟨drawn', ?_⟩ ?_
      · rw [modules', modules, List.append_assoc]
      · rw [modules']
        exact List.mem_append_right _ (List.mem_singleton_self target)

/-- A fold of computations that each add something. -/
private theorem yields_foldlM {α β : Type} {f : β → α → Loads κ ℓ β}
    (reached : List α → β → Registry κ → Prop) (xs : List α) {done : List α} {b : β}
    (each : ∀ a ∈ xs, ∀ done b (between : Stock κ ℓ), reached done b between.registry →
      Yields may (f b a) between (reached (done ++ [a])))
    (start : reached done b stock.registry) :
    Yields may (xs.foldlM f b) stock (reached (done ++ xs)) := by
  induction xs generalizing done b stock with
  | nil =>
    rw [List.foldlM_nil, List.append_nil]
    exact yields_pure start
  | cons a rest ih =>
    rw [List.foldlM_cons]
    apply yields_bind (each a List.mem_cons_self done b stock start)
    intro b' between _ _ held
    have others := ih (fun other member => each other (List.mem_cons_of_mem _ member)) held
    rwa [List.append_assoc] at others

theorem yields_connectAll {graph : ModuleGraph} {expanded : List (ModuleId × Dependencies)}
    (sources : ∀ entry ∈ expanded, entry.1 ∈ graph.modules)
    (drawn : graph.Drawn stock.registry edges) :
    Yields may (connectAll limit graph expanded : Loads κ ℓ Growth) stock
      (Reached graph.modules fun m t =>
        edges m t ∨ ∃ entry ∈ expanded, entry.1 = m ∧ t ∈ entry.2.map (·.2)) := by
  -- The edges of the modules that are done, and of the present one up to some target.
  let sofar (done : List (ModuleId × Dependencies)) (m t : ModuleId) : Prop :=
    edges m t ∨ ∃ entry ∈ done, entry.1 = m ∧ t ∈ entry.2.map (·.2)
  have each : ∀ entry ∈ expanded, ∀ done growth (between : Stock κ ℓ),
      Reached graph.modules (sofar done) growth between.registry →
      Yields may ((entry.2.map (·.2)).foldlM (connect limit entry.1) growth) between
        (Reached graph.modules (sofar (done ++ [entry]))) := by
    intro entry member done growth between reached
    have inner : Yields may ((entry.2.map (·.2)).foldlM (connect limit entry.1) growth) between
        (Reached graph.modules fun m t =>
          sofar done m t ∨ m = entry.1 ∧ t ∈ [] ++ entry.2.map (·.2)) := by
      refine yields_foldlM (fun targets => Reached graph.modules fun m t =>
        sofar done m t ∨ m = entry.1 ∧ t ∈ targets) _ (fun target _ targets growth last held => ?_) ?_
      · refine (yields_connect (sources entry member) held).mono (fun _ allowed => allowed)
          fun growth r ⟨drawn, modules⟩ => ⟨drawn.congr fun m t => ?_, modules⟩
        rw [List.mem_append, List.mem_singleton, and_or_left, or_assoc]
      · exact ⟨reached.1.congr fun m t => by simp, reached.2⟩
    refine inner.mono (fun _ allowed => allowed) fun growth r ⟨drawn, modules⟩ =>
      ⟨drawn.congr fun m t => ?_, modules⟩
    constructor
    · rintro ((edge | ⟨e, early, rest⟩) | ⟨rfl, last⟩)
      · exact .inl edge
      · exact .inr ⟨e, List.mem_append_left _ early, rest⟩
      · exact .inr ⟨entry, List.mem_append_right _ (List.mem_singleton_self entry), rfl, last⟩
    · rintro (edge | ⟨e, member, same, inside⟩)
      · exact .inl (.inl edge)
      rcases List.mem_append.mp member with early | last
      · exact .inl (.inr ⟨e, early, same, inside⟩)
      · cases List.mem_singleton.mp last
        exact .inr ⟨same.symm, inside⟩
  have all : Yields may (expanded.foldlM (fun growth entry =>
      (entry.2.map (·.2)).foldlM (connect limit entry.1) growth) ⟨graph, []⟩) stock
      (Reached graph.modules (sofar ([] ++ expanded))) := by
    refine yields_foldlM (fun done => Reached graph.modules (sofar done)) expanded each ⟨?_, ?_⟩
    · exact drawn.congr fun m t => by simp [sofar]
    · simp
  exact all

end Growth

namespace ModuleGraph

open Loads

variable {κ ℓ : Type} {g : ModuleGraph} {r r' : Registry κ} {stock : Stock κ ℓ}
  {resolver : Specifier.Resolver} {loader : Loader κ ℓ} {limits : BuildLimits}

/-- A graph that shows the registry as it is: everything in it has its dependencies,
and these are in it too. -/
structure Faithful (g : ModuleGraph) (r : Registry κ) : Prop where
  drawn : g.Drawn r fun m t => m ∈ g.modules ∧ r.DependsOn m t
  resolved : ∀ m ∈ g.modules, ∃ dependencies, r.Resolved m dependencies

namespace Faithful

variable {m target : ModuleId}

theorem mem_dependencies (faithful : g.Faithful r) (member : m ∈ g.modules) :
    target ∈ g.dependencies m ↔ r.DependsOn m target := by
  obtain ⟨n, held, rfl⟩ := List.mem_map.mp member
  rw [dependencies, node?_of_mem faithful.drawn.distinct held, Option.map_some, Option.getD_some,
    faithful.drawn.drawn n held target]
  exact and_iff_right member

theorem closed (faithful : g.Faithful r) (member : m ∈ g.modules)
    (depends : r.DependsOn m target) : target ∈ g.modules :=
  (faithful.drawn.inside m target ⟨member, depends⟩).2

theorem registered (faithful : g.Faithful r) (member : m ∈ g.modules) :
    ∃ i, r.get? m = some i := by
  obtain ⟨dependencies, i, known, _⟩ := faithful.resolved m member
  exact ⟨i, known⟩

/-- A graph stays faithful while its modules keep their identities, records and
dependencies. -/
theorem transfer (faithful : g.Faithful r)
    (kept : ∀ m i, r.get? m = some i → ∃ i', r'.get? m = some i' ∧ i'.identity = i.identity ∧
      i'.record = i.record ∧ ∀ d, i.dependencies = some d → i'.dependencies = some d) :
    g.Faithful r' := by
  have resolved : ∀ m ∈ g.modules, ∀ target, r'.DependsOn m target ↔ r.DependsOn m target := by
    intro m member target
    obtain ⟨dependencies, i, known, held⟩ := faithful.resolved m member
    obtain ⟨i', known', _, _, dependencies'⟩ := kept m i known
    have now : r'.Resolved m dependencies := ⟨i', known', dependencies' _ held⟩
    have before : r.Resolved m dependencies := ⟨i, known, held⟩
    exact now.dependsOn_iff.trans before.dependsOn_iff.symm
  refine ⟨⟨faithful.drawn.distinct, faithful.drawn.entry, fun n member => ?_, fun n member target => ?_,
    fun m target edge => ?_⟩, fun m member => ?_⟩
  · obtain ⟨i, known, identity, kind⟩ := faithful.drawn.shown n member
    obtain ⟨i', known', identity', record, _⟩ := kept n.id i known
    exact ⟨i', known', identity.trans identity'.symm, kind.trans (by simp [Instance.kind, record])⟩
  · have inside : n.id ∈ g.modules := List.mem_map_of_mem member
    rw [faithful.drawn.drawn n member target, resolved n.id inside]
  · exact faithful.drawn.inside m target ⟨edge.1, (resolved m edge.1 target).mp edge.2⟩
  · obtain ⟨dependencies, i, known, held⟩ := faithful.resolved m member
    obtain ⟨i', known', _, _, dependencies'⟩ := kept m i known
    exact ⟨dependencies, i', known', dependencies' _ held⟩

theorem grows {may : ModuleId → Prop} (faithful : g.Faithful r) (grows : r.Grows may r') :
    g.Faithful r' := by
  apply faithful.transfer
  intro m i known
  obtain ⟨dependencies, known', change⟩ := grows.kept m i known
  refine ⟨_, known', rfl, rfl, fun d held => ?_⟩
  rcases change with rfl | ⟨_, absent⟩
  · exact held
  · rw [held] at absent
    cases absent

end Faithful

/-- A round and its expansion, member by member. -/
theorem resolved_of_zip {round : List ModuleId} {expanded : List Dependencies}
    (each : List.Forall₂ (fun m d => r.Resolved m d) round expanded) :
    (∀ entry ∈ round.zip expanded, entry.1 ∈ round ∧ r.Resolved entry.1 entry.2) ∧
      ∀ m ∈ round, ∃ d, (m, d) ∈ round.zip expanded := by
  induction each with
  | nil => simp
  | @cons m d rest _ head _ ih =>
    refine ⟨fun entry member => ?_, fun other member => ?_⟩
    · rcases List.mem_cons.mp member with rfl | member
      · exact ⟨List.mem_cons_self, head⟩
      · obtain ⟨inside, resolved⟩ := ih.1 entry member
        exact ⟨List.mem_cons_of_mem _ inside, resolved⟩
    · rcases List.mem_cons.mp member with rfl | member
      · exact ⟨d, List.mem_cons_self⟩
      · obtain ⟨d', held⟩ := ih.2 other member
        exact ⟨d', List.mem_cons_of_mem _ held⟩

/-- Every round draws all edges of the modules found in the round before. -/
theorem yields_grow (rounds : Nat) {graph : ModuleGraph} {expanded round : List ModuleId}
    (drawn : graph.Drawn stock.registry fun m t => m ∈ expanded ∧ stock.registry.DependsOn m t)
    (modules : graph.modules = expanded ++ round)
    (resolved : ∀ m ∈ expanded, ∃ dependencies, stock.registry.Resolved m dependencies) :
    Yields (fun _ => True) (grow resolver loader limits rounds graph round) stock Faithful := by
  have finished : ∀ {stock : Stock κ ℓ} {graph : ModuleGraph} {expanded : List ModuleId},
      graph.Drawn stock.registry (fun m t => m ∈ expanded ∧ stock.registry.DependsOn m t) →
      graph.modules = expanded ++ [] →
      (∀ m ∈ expanded, ∃ dependencies, stock.registry.Resolved m dependencies) →
      graph.Faithful stock.registry := by
    intro stock graph expanded drawn modules resolved
    rw [List.append_nil] at modules
    subst modules
    exact ⟨drawn, resolved⟩
  induction rounds generalizing graph expanded round stock with
  | zero =>
    cases round with
    | nil =>
      rw [grow]
      exact yields_pure (finished drawn modules resolved)
    | cons m rest => exact yields_throw
  | succ rounds ih =>
    cases round with
    | nil =>
      rw [grow]
      exact yields_pure (finished drawn modules resolved)
    | cons m rest =>
      unfold grow
      refine yields_bind (yields_expandAll.mono (fun _ _ => trivial) fun _ _ held => held)
        fun found between grows _ each => ?_
      obtain ⟨sources, all⟩ := resolved_of_zip each
      have inside : ∀ entry ∈ (m :: rest).zip found, entry.1 ∈ graph.modules := by
        intro entry member
        rw [modules]
        exact List.mem_append_right _ (sources entry member).1
      refine yields_bind (Growth.yields_connectAll inside (drawn.grows grows))
        fun growth last further _ ⟨drawn', modules'⟩ => ?_
      -- The modules of this round are expanded now, and those found make up the next one.
      have resolved' : ∀ x ∈ graph.modules, ∃ dependencies, last.registry.Resolved x dependencies := by
        intro x member
        rw [modules] at member
        rcases List.mem_append.mp member with early | now
        · obtain ⟨dependencies, held⟩ := resolved x early
          exact ⟨dependencies, (held.grows grows).grows further⟩
        · obtain ⟨dependencies, held⟩ := all x now
          exact ⟨dependencies, (sources _ held).2.grows further⟩
      refine ih (drawn'.congr fun x t => ?_) modules' resolved'
      constructor
      · rintro (⟨early, depends⟩ | ⟨entry, member, rfl, target⟩)
        · obtain ⟨dependencies, held⟩ := resolved x early
          refine ⟨modules ▸ List.mem_append_left _ early, ?_⟩
          exact ((held.grows grows).dependsOn_grows further).mpr
            ((held.dependsOn_grows grows).mpr depends)
        · have held := (sources entry member).2.grows further
          exact ⟨inside entry member, held.dependsOn_iff.mpr target⟩
      · rintro ⟨member, depends⟩
        rw [modules] at member
        rcases List.mem_append.mp member with early | now
        · obtain ⟨dependencies, held⟩ := resolved x early
          refine .inl ⟨early, (held.dependsOn_grows grows).mp ?_⟩
          exact ((held.grows grows).dependsOn_grows further).mp depends
        · obtain ⟨dependencies, held⟩ := all x now
          have resolved' := (sources _ held).2.grows further
          exact .inr ⟨(x, dependencies), held, rfl, resolved'.dependsOn_iff.mp depends⟩

/-- The graph that a build gives is faithful. -/
theorem yields_build {entry : String} :
    Yields (fun _ => True) (build resolver loader limits entry) stock Faithful := by
  unfold build
  apply yields_bind yields_resolve
  intro identity between _ _ _
  refine yields_bind yields_obtain.grown fun m between _ _ ⟨⟨i, known, named⟩, _⟩ => ?_
  refine yields_bind yields_instanceOf.grown fun j last _ _ ⟨known', grows⟩ => ?_
  obtain ⟨_, same, _⟩ := grows.kept m i known
  rw [known'] at same
  cases same
  subst named
  obtain ⟨drawn, modules⟩ := Drawn.start known'
  have none : ∀ x ∈ ([] : List ModuleId), ∃ dependencies, last.registry.Resolved x dependencies := by
    simp
  exact yields_grow _ (drawn.congr fun x t => by simp) modules none

end ModuleGraph
end MixedModules
