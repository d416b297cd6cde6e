import MixedModules.Proofs.Graph.Breadth
import MixedModules.Proofs.Graph.Building
import MixedModules.Proofs.Registry.Supply

/-! The rounds of a build, one by one.

A round expands the modules found in the one before and draws their edges. Whatever the
loader hands over, no module is expanded twice and no more of them are expanded than a
graph may have, so the rounds come to an end of their own. -/
namespace MixedModules

/-! ## One edge more -/

namespace ModuleGraph

variable {g : ModuleGraph} {m source target : ModuleId}

theorem size_eq (g : ModuleGraph) : g.size = g.modules.length := (List.length_map _).symm

theorem modules_addModule (new : m ∉ g.modules) (identity : String) (kind : ModuleKind) :
    (g.addModule m identity kind).modules = g.modules ++ [m] := by
  have absent : g.contains m = false := by
    rw [Bool.eq_false_iff]
    exact fun holds => new (contains_iff.mp holds)
  simp [addModule, absent, modules]

theorem dependencies_addModule (g : ModuleGraph) (m : ModuleId) (identity : String)
    (kind : ModuleKind) (x : ModuleId) :
    (g.addModule m identity kind).dependencies x = g.dependencies x := by
  unfold addModule
  split
  · rfl
  · simp only [dependencies, node?, List.find?_append]
    cases g.nodes.find? fun n => n.id = x with
    | some n => rfl
    | none => by_cases same : m = x <;> simp [same]

theorem dependencies_addDependency (member : source ∈ g.modules) (target m : ModuleId) :
    (g.addDependency source target).dependencies m =
      if m = source ∧ target ∉ g.dependencies m then g.dependencies m ++ [target]
      else g.dependencies m := by
  have found : (g.addDependency source target).node? m = (g.node? m).map fun n =>
      if n.id = source ∧ target ∉ n.dependencies then
        { n with dependencies := n.dependencies ++ [target] }
      else n := by
    unfold node? addDependency
    rw [List.find?_map]
    congr 2
    funext n
    simp only [Function.comp_apply]
    split <;> rfl
  unfold dependencies
  rw [found]
  cases held : g.node? m with
  | none =>
    have other : m ≠ source := by
      rintro rfl
      simpa [contains, held] using contains_iff.mpr member
    simp [other]
  | some n =>
    have named : n.id = m := by simpa using List.find?_some held
    subst named
    by_cases changes : n.id = source ∧ target ∉ n.dependencies <;> simp [changes]

end ModuleGraph

namespace Loads

variable {κ ℓ : Type}

theorem outcome_instanceOf (m : ModuleId) (stock : Stock κ ℓ) :
    (instanceOf m : Loads κ ℓ (Instance κ)).outcome stock =
      match stock.registry.get? m with
      | some i => (.ok i, stock)
      | none => (.error (.failed (.fetch m.text "module vanished from the registry")), stock) := by
  have opened : (instanceOf m : Loads κ ℓ (Instance κ)).outcome stock =
      Loads.outcome (match stock.registry.get? m with
        | some i => pure i
        | none => fail (.fetch m.text "module vanished from the registry")) stock := rfl
  rw [opened]
  cases stock.registry.get? m <;> rfl

theorem yields_resolved {resolver : Specifier.Resolver} {specifier : String}
    {referrer : Option String} {may : ModuleId → Prop} {stock : Stock κ ℓ} :
    Yields may (resolve resolver specifier referrer : Loads κ ℓ String) stock
      fun identity _ => resolver specifier referrer = .ok identity := by
  unfold resolve
  cases resolves : resolver specifier referrer with
  | ok identity => exact yields_pure rfl
  | error reason => exact yields_throw

end Loads

namespace Growth

open Loads ModuleGraph

variable {κ ℓ : Type} {stock : Stock κ ℓ} {limit : Nat} {graph : ModuleGraph}
  {drawn strokes : List (ModuleId × ModuleId)} {growth : Growth}

/-- A graph to which edges are drawn. The targets that are new are added in order, within
the limit, and a source has each of its targets once, in order. -/
structure Sketched (limit : Nat) (graph : ModuleGraph) (drawn : List (ModuleId × ModuleId))
    (growth : Growth) : Prop where
  entry : growth.graph.entry = graph.entry
  modules : growth.graph.modules = (graph.modules ++ drawn.map (·.2)).eraseDups
  found : growth.graph.modules = graph.modules ++ growth.found
  dependencies : ∀ m already, graph.dependencies m = already.eraseDups →
    growth.graph.dependencies m = (already ++ (drawn.filter (·.1 = m)).map (·.2)).eraseDups
  size : graph.size ≤ max limit 1 → growth.graph.size ≤ max limit 1

/-- Why edges cannot be drawn: a target is not registered, or there are too many. A source
is there whatever the limit is. -/
def Blocked (r : Registry κ) (limit : Nat) (graph : ModuleGraph)
    (strokes : List (ModuleId × ModuleId)) : Prop :=
  (∃ stroke ∈ strokes, r.get? stroke.2 = none) ∨
    max limit 1 < (graph.modules ++ strokes.map (·.2)).eraseDups.length

theorem Blocked.mono {r : Registry κ} (blocked : Blocked r limit graph drawn)
    (strokes : List (ModuleId × ModuleId)) :
    Blocked r limit graph (drawn ++ strokes) := by
  refine blocked.imp (fun ⟨stroke, member, absent⟩ =>
    ⟨stroke, List.mem_append_left _ member, absent⟩) fun large => ?_
  rw [List.map_append, ← List.append_assoc, List.eraseDups_append, List.length_append]
  omega

/-- The dependencies of all modules after one edge more. -/
private theorem dependencies_stroke {g : ModuleGraph} {source target m : ModuleId}
    {already : List ModuleId} (here : source ∈ g.modules)
    (before : g.dependencies m = (already ++ (drawn.filter (·.1 = m)).map (·.2)).eraseDups) :
    (g.addDependency source target).dependencies m =
      (already ++ ((drawn ++ [(source, target)]).filter (·.1 = m)).map (·.2)).eraseDups := by
  rw [dependencies_addDependency here, List.filter_append, List.map_append, ← List.append_assoc,
    before]
  by_cases mine : source = m
  · subst mine
    have last : [(source, target)].filter (fun stroke => stroke.1 = source) = [(source, target)] := by
      simp
    rw [last, List.map_singleton, eraseDups_concat]
    simp only [List.mem_eraseDups, true_and, ite_not]
  · simp [mine, Ne.symm mine]

namespace Sketched

variable {source target : ModuleId}

theorem start (graph : ModuleGraph) (distinct : graph.modules.Nodup) :
    Sketched limit graph [] ⟨graph, []⟩ := by
  refine ⟨rfl, ?_, (List.append_nil _).symm, fun m already same => ?_, id⟩
  · simp [eraseDups_of_nodup distinct]
  · simp [same]

/-- An edge is drawn between modules that are there. -/
theorem stroke (sketched : Sketched limit graph drawn growth)
    (here : source ∈ growth.graph.modules) (there : target ∈ growth.graph.modules) :
    Sketched limit graph (drawn ++ [(source, target)])
      { growth with graph := growth.graph.addDependency source target } := by
  have modules := modules_addDependency growth.graph source target
  refine ⟨sketched.entry, ?_, modules.trans sketched.found, fun m already same =>
    dependencies_stroke here (sketched.dependencies m already same), fun fits => ?_⟩
  · have known : target ∈ graph.modules ++ drawn.map (·.2) := by
      rwa [sketched.modules, List.mem_eraseDups] at there
    rw [modules, List.map_append, ← List.append_assoc, List.map_singleton, eraseDups_concat,
      if_pos known, sketched.modules]
  · rw [size_eq, modules, ← size_eq]
    exact sketched.size fits

/-- A target that is new is added first. -/
theorem add (sketched : Sketched limit graph drawn growth) (here : source ∈ growth.graph.modules)
    (new : target ∉ growth.graph.modules) (room : growth.graph.size < limit) (identity : String)
    (kind : ModuleKind) :
    Sketched limit graph (drawn ++ [(source, target)])
      ⟨(growth.graph.addModule target identity kind).addDependency source target,
        growth.found ++ [target]⟩ := by
  have added := modules_addModule new identity kind
  have modules := (modules_addDependency _ source target).trans added
  refine ⟨?_, ?_, ?_, fun m already same => ?_, fun _ => ?_⟩
  · rw [← sketched.entry]
    unfold addDependency addModule
    dsimp only
    split <;> rfl
  · have unknown : target ∉ graph.modules ++ drawn.map (·.2) := by
      rwa [sketched.modules, List.mem_eraseDups] at new
    rw [modules, List.map_append, ← List.append_assoc, List.map_singleton, eraseDups_concat,
      if_neg unknown, sketched.modules]
  · rw [modules, sketched.found, List.append_assoc]
  · refine dependencies_stroke (added ▸ List.mem_append_left _ here) ?_
    rw [dependencies_addModule, sketched.dependencies m already same]
  · rw [size_eq, modules, List.length_append, ← size_eq]
    exact Nat.le_trans room (Nat.le_max_left _ _)

end Sketched

/-- Drawing edges ends well, or there is a reason why it does not. Nothing is loaded. Where
all targets are registered, the only reason is that there are too many. -/
def Draws (stock : Stock κ ℓ) (limit : Nat) (graph : ModuleGraph)
    (drawn : List (ModuleId × ModuleId)) (ended : Except Stop Growth × Stock κ ℓ) : Prop :=
  (∃ growth, ended = (.ok growth, stock) ∧ Sketched limit graph drawn growth) ∨
    ∃ reason, ended = (.error reason, stock) ∧ Blocked stock.registry limit graph drawn ∧
      ((∃ stroke ∈ drawn, stock.registry.get? stroke.2 = none) ∨
        reason = .failed (.tooLarge limit))

theorem connect_draws {source : ModuleId} (member : source ∈ graph.modules) (target : ModuleId)
    (sketched : Sketched limit graph drawn growth) :
    Draws stock limit graph (drawn ++ [(source, target)])
      ((connect limit source growth target).outcome stock) := by
  have here : source ∈ growth.graph.modules := sketched.found ▸ List.mem_append_left _ member
  unfold connect
  dsimp only
  split
  · next held =>
    rw [pure_bind]
    exact .inl ⟨_, rfl, sketched.stroke here (contains_iff.mp held)⟩
  · next absent =>
    have new : target ∉ growth.graph.modules := fun held => absent (contains_iff.mpr held)
    split
    · next full =>
      refine .inr ⟨_, rfl, .inr ?_, .inr rfl⟩
      have unknown : target ∉ graph.modules ++ drawn.map (·.2) := by
        rwa [sketched.modules, List.mem_eraseDups] at new
      have filled := List.length_pos_of_mem here
      rw [sketched.modules] at filled
      rw [size_eq, sketched.modules] at full
      rw [List.map_append, ← List.append_assoc, List.map_singleton, eraseDups_concat,
        if_neg unknown, List.length_append, List.length_singleton]
      omega
    · next room =>
      rw [outcome_bind, outcome_instanceOf]
      cases known : stock.registry.get? target with
      | none =>
        have absent : ∃ stroke ∈ drawn ++ [(source, target)], stock.registry.get? stroke.2 = none :=
          ⟨(source, target), by simp, known⟩
        exact .inr ⟨_, rfl, .inl absent, .inl absent⟩
      | some i =>
        exact .inl ⟨_, rfl, sketched.add here new (Nat.lt_of_not_le room) i.identity i.kind⟩

theorem foldlM_draws (sources : ∀ stroke ∈ strokes, stroke.1 ∈ graph.modules)
    (sketched : Sketched limit graph drawn growth) :
    Draws stock limit graph (drawn ++ strokes)
      ((strokes.foldlM (fun growth stroke => connect limit stroke.1 growth stroke.2)
        growth).outcome stock) := by
  induction strokes generalizing drawn growth with
  | nil =>
    rw [List.append_nil]
    exact .inl ⟨growth, rfl, sketched⟩
  | cons stroke rest ih =>
    rw [List.foldlM_cons, outcome_bind]
    rcases connect_draws (sources stroke List.mem_cons_self) stroke.2 sketched with
      ⟨next, ended, sketched'⟩ | ⟨reason, ended, blocked, why⟩
    · rw [ended]
      have others := ih (fun other member => sources other (List.mem_cons_of_mem _ member)) sketched'
      rwa [List.append_assoc] at others
    · rw [ended]
      have blocked' := blocked.mono rest
      rw [List.append_assoc] at blocked'
      refine .inr ⟨reason, rfl, blocked', why.imp_left fun ⟨other, member, absent⟩ => ?_⟩
      exact ⟨other, by simpa [or_assoc] using List.mem_append_left rest member, absent⟩

/-- The edges of modules with their dependencies. -/
def strokesOf (edges : List (ModuleId × Dependencies)) : List (ModuleId × ModuleId) :=
  edges.flatMap fun edge => edge.2.map fun d => (edge.1, d.2)

theorem connectAll_draws (stock : Stock κ ℓ) (limit : Nat) {edges : List (ModuleId × Dependencies)}
    (distinct : graph.modules.Nodup) (sources : ∀ edge ∈ edges, edge.1 ∈ graph.modules) :
    Draws stock limit graph (strokesOf edges) ((connectAll limit graph edges).outcome stock) := by
  have single : ∀ growth : Growth, edges.foldlM (fun growth edge =>
        (edge.2.map (·.2)).foldlM (connect limit edge.1) growth) growth =
      ((strokesOf edges).foldlM (fun growth stroke => connect limit stroke.1 growth stroke.2)
        growth : Loads κ ℓ Growth) := by
    induction edges with
    | nil => exact fun _ => rfl
    | cons edge rest ih =>
      intro growth
      have later := ih fun other member => sources other (List.mem_cons_of_mem _ member)
      rw [List.foldlM_cons, strokesOf, List.flatMap_cons, List.foldlM_append, List.foldlM_map,
        List.foldlM_map]
      exact congrArg _ (funext later)
  have sources' : ∀ stroke ∈ strokesOf edges, stroke.1 ∈ graph.modules := by
    intro stroke member
    obtain ⟨edge, held, inside⟩ := List.mem_flatMap.mp member
    obtain ⟨d, _, rfl⟩ := List.mem_map.mp inside
    exact sources edge held
  have same := single ⟨graph, []⟩
  rw [connectAll, same]
  exact foldlM_draws sources' (.start graph distinct)

end Growth

/-! ## Rounds without a bound -/

/-- How many modules a graph has room for. Its entry is there whatever the limit is. -/
def BuildLimits.room (limits : BuildLimits) : Nat := max limits.maxModules 1

theorem BuildLimits.room_eq {limits : BuildLimits} (positive : 1 ≤ limits.maxModules) :
    limits.room = limits.maxModules := Nat.max_eq_left positive

theorem BuildLimits.one_le_room (limits : BuildLimits) : 1 ≤ limits.room := Nat.le_max_right _ _

namespace ModuleGraph

open Loads Growth

variable {κ ℓ : Type} {resolver : Specifier.Resolver} {loader : Loader κ ℓ}
  {limits : BuildLimits} {graph : ModuleGraph} {expanded round : List ModuleId}
  {stock : Stock κ ℓ}

/-- One round: its modules are expanded and their edges drawn. -/
def advance (resolver : Specifier.Resolver) (loader : Loader κ ℓ) (limits : BuildLimits)
    (graph : ModuleGraph) (round : List ModuleId) : Loads κ ℓ Growth := do
  let expanded ← expandAll resolver loader limits.concurrency round
  connectAll limits.maxModules graph (round.zip expanded)

/-- The graph of an entry alone. -/
def opening (resolver : Specifier.Resolver) (loader : Loader κ ℓ) (entry : String) :
    Loads κ ℓ ModuleGraph := do
  let identity ← resolve resolver entry none
  let m ← obtain loader identity
  let i ← instanceOf m
  return .new m identity i.kind

/-- A graph grows until nothing more is found or a round stops. The rounds are told, the
one that stopped among them. -/
inductive Rounds (resolver : Specifier.Resolver) (loader : Loader κ ℓ) (limits : BuildLimits) :
    ModuleGraph → List ModuleId → Stock κ ℓ → List (List ModuleId) →
      Except Stop ModuleGraph × Stock κ ℓ → Prop where
  | done {graph : ModuleGraph} {stock : Stock κ ℓ} :
      Rounds resolver loader limits graph [] stock [] (.ok graph, stock)
  | stopped {graph : ModuleGraph} {round : List ModuleId} {stock last : Stock κ ℓ} {reason : Stop}
      (nonempty : round ≠ [])
      (stops : (advance resolver loader limits graph round).outcome stock = (.error reason, last)) :
      Rounds resolver loader limits graph round stock [round] (.error reason, last)
  | turned {graph : ModuleGraph} {round : List ModuleId} {stock between : Stock κ ℓ}
      {growth : Growth} {rounds : List (List ModuleId)} {ended : Except Stop ModuleGraph × Stock κ ℓ}
      (nonempty : round ≠ [])
      (turns : (advance resolver loader limits graph round).outcome stock = (.ok growth, between))
      (rest : Rounds resolver loader limits growth.graph growth.found between rounds ended) :
      Rounds resolver loader limits graph round stock (round :: rounds) ended

theorem build_eq (resolver : Specifier.Resolver) (loader : Loader κ ℓ) (limits : BuildLimits)
    (entry : String) : build resolver loader limits entry =
      opening resolver loader entry >>= fun graph =>
        graph.grow resolver loader limits (limits.maxModules + 1) graph.modules := by
  unfold build opening
  simp only [bind_assoc, pure_bind]
  rfl

theorem grow_eq {bound : Nat} (nonempty : round ≠ []) :
    grow resolver loader limits (bound + 1) graph round =
      advance resolver loader limits graph round >>= fun growth =>
        growth.graph.grow resolver loader limits bound growth.found := by
  rw [grow, advance, bind_assoc]
  exact nonempty

theorem grow_nil (bound : Nat) (graph : ModuleGraph) :
    (grow resolver loader limits bound graph []) = pure graph := by
  unfold grow
  rfl

/-- The edges of a round lead from its members. -/
theorem sources_of_zip {α β : Type} {xs : List α} {ys : List β} :
    ∀ entry ∈ xs.zip ys, entry.1 ∈ xs :=
  fun _ member => (List.of_mem_zip member).1

theorem advance_sketched {growth : Growth} {between : Stock κ ℓ} (distinct : graph.modules.Nodup)
    (inside : ∀ m ∈ round, m ∈ graph.modules)
    (turns : (advance resolver loader limits graph round).outcome stock = (.ok growth, between)) :
    ∃ expanded, (expandAll resolver loader limits.concurrency round).outcome stock =
      (.ok expanded, between) ∧
      Sketched limits.maxModules graph (strokesOf (round.zip expanded)) growth := by
  unfold advance at turns
  rw [outcome_bind] at turns
  rcases result : (expandAll resolver loader limits.concurrency round).outcome stock with
    ⟨_ | expanded, middle⟩
  · rw [result] at turns
    cases turns
  · rw [result] at turns
    have sources : ∀ edge ∈ round.zip expanded, edge.1 ∈ graph.modules :=
      fun edge member => inside _ (sources_of_zip edge member)
    rcases connectAll_draws middle limits.maxModules distinct sources with
      ⟨_, ended, sketched⟩ | ⟨_, ended, _⟩
    · cases turns.symm.trans ended
      exact ⟨expanded, rfl, sketched⟩
    · cases turns.symm.trans ended

/-- Every round adds a module or is the last, so the bound is never met. Each module is
expanded once. -/
theorem exists_rounds (bound : Nat) (modules : graph.modules = expanded ++ round)
    (distinct : graph.modules.Nodup) (size : graph.size ≤ limits.room)
    (enough : limits.maxModules < bound + expanded.length) :
    ∃ rounds, Rounds resolver loader limits graph round stock rounds
        ((grow resolver loader limits bound graph round).outcome stock) ∧
      (expanded ++ rounds.flatten).Nodup ∧
      (expanded ++ rounds.flatten).length ≤ limits.room := by
  rw [size_eq] at size
  induction bound generalizing graph expanded round stock with
  | zero =>
    have last : round = [] := by
      rw [modules, List.length_append, BuildLimits.room] at size
      exact List.length_eq_zero_iff.mp (by omega)
    subst last
    rw [List.append_nil] at modules
    rw [grow_nil]
    refine ⟨[], .done, ?_, ?_⟩
    · simpa [← modules] using distinct
    · simpa [← modules] using size
  | succ bound ih =>
    by_cases nonempty : round = []
    · subst nonempty
      rw [List.append_nil] at modules
      rw [grow_nil]
      refine ⟨[], .done, ?_, ?_⟩
      · simpa [← modules] using distinct
      · simpa [← modules] using size
    · have inside : ∀ m ∈ round, m ∈ graph.modules := fun m member =>
        modules ▸ List.mem_append_right _ member
      rw [grow_eq nonempty, outcome_bind]
      rcases turns : (advance resolver loader limits graph round).outcome stock with
        ⟨reason | growth, between⟩
      · refine ⟨[round], .stopped nonempty turns, ?_, ?_⟩
        · simpa [← modules] using distinct
        · simpa [← modules] using size
      · obtain ⟨_, _, sketched⟩ := advance_sketched distinct inside turns
        have room := sketched.size (size_eq graph ▸ size)
        have enough' : limits.maxModules < bound + graph.modules.length := by
          have grows : 0 < round.length := List.length_pos_iff.mpr nonempty
          rw [modules, List.length_append]
          omega
        obtain ⟨rounds, rest, apart, few⟩ := ih sketched.found
          (sketched.modules ▸ nodup_eraseDups _) (size_eq growth.graph ▸ room) enough'
        refine ⟨round :: rounds, .turned nonempty turns rest, ?_, ?_⟩
        · rwa [modules, List.append_assoc] at apart
        · rwa [modules, List.append_assoc] at few

end ModuleGraph

/-! ## What a build gives -/

namespace Growth

open Loads

variable {κ ℓ : Type} {r : Registry κ} {round : List ModuleId} {expanded : List Dependencies}

theorem targets_strokesOf
    (each : List.Forall₂ (fun m d => r.Resolved m d) round expanded) :
    (strokesOf (round.zip expanded)).map (·.2) = round.flatMap r.targets := by
  induction each with
  | nil => rfl
  | cons head _ ih =>
    rw [List.zip_cons_cons, strokesOf, List.flatMap_cons, List.map_append, List.flatMap_cons,
      head.targets, ← ih, List.map_map]
    rfl

theorem exists_resolved (each : List.Forall₂ (fun m d => r.Resolved m d) round expanded) :
    ∀ m ∈ round, ∃ dependencies, r.Resolved m dependencies := by
  intro m member
  obtain ⟨sources, all⟩ := ModuleGraph.resolved_of_zip each
  obtain ⟨d, held⟩ := all m member
  exact ⟨d, (sources _ held).2⟩

theorem targets_of_source {m : ModuleId} (distinct : round.Nodup)
    (each : List.Forall₂ (fun m d => r.Resolved m d) round expanded) :
    ((strokesOf (round.zip expanded)).filter (·.1 = m)).map (·.2) =
      if m ∈ round then r.targets m else [] := by
  induction each with
  | nil => rfl
  | @cons x d rest _ head _ ih =>
    obtain ⟨fresh, distinct⟩ := List.nodup_cons.mp distinct
    have own : ((d.map fun target => (x, target.2)).filter (·.1 = m)).map (·.2) =
        if x = m then r.targets x else [] := by
      by_cases same : x = m
      · subst same
        simp [head.targets, List.filter_map, Function.comp_def]
      · simp [same, List.filter_map, Function.comp_def]
    rw [List.zip_cons_cons, strokesOf, List.flatMap_cons, List.filter_append, List.map_append, own]
    have others := ih distinct
    rw [strokesOf] at others
    rw [others]
    by_cases same : x = m
    · subst same
      simp [fresh]
    · simp [same, Ne.symm same]

end Growth

namespace ModuleGraph

open Loads Growth

variable {κ ℓ : Type} {resolver : Specifier.Resolver} {loader : Loader κ ℓ}
  {limits : BuildLimits} {graph : ModuleGraph} {expanded round : List ModuleId}
  {stock : Stock κ ℓ} {may : ModuleId → Prop}

/-- A graph in which a search went on from what was known. It has no room for more
modules than the limit, and each of its modules has its targets once, in the order of
asking. -/
structure Spans (limit : Nat) (r : Registry κ) (entry : ModuleId) (known round : List ModuleId)
    (g : ModuleGraph) : Prop where
  entry : g.entry = entry
  order : BreadthFirst r.targets known round g.modules
  dependencies : ∀ m ∈ g.modules, g.dependencies m = (r.targets m).eraseDups
  size : g.size ≤ limit

theorem yields_advance (distinct : graph.modules.Nodup) (inside : ∀ m ∈ round, m ∈ graph.modules) :
    Yields (fun _ => True) (advance resolver loader limits graph round) stock fun growth r =>
      ∃ found, List.Forall₂ (fun m d => r.Resolved m d) round found ∧
        Sketched limits.maxModules graph (strokesOf (round.zip found)) growth := by
  unfold advance
  refine yields_bind (yields_expandAll.mono (fun _ _ => trivial) fun _ _ held => held)
    fun found between _ stocked each => ?_
  intro _
  have sources : ∀ edge ∈ round.zip found, edge.1 ∈ graph.modules :=
    fun edge member => inside _ (sources_of_zip edge member)
  rcases connectAll_draws between limits.maxModules distinct sources with
    ⟨growth, ended, sketched⟩ | ⟨reason, ended, _⟩
  · rw [ended]
    refine ⟨.refl _, stocked, fun _ same => ?_⟩
    cases same
    exact ⟨found, each, sketched⟩
  · rw [ended]
    exact ⟨.refl _, stocked, fun _ same => by cases same⟩

/-- The modules that were expanded have all their edges, and the others have none yet. -/
structure Expanded (r : Registry κ) (graph : ModuleGraph) (expanded : List ModuleId) : Prop where
  drawn : ∀ m ∈ expanded, ∃ d, r.Resolved m d ∧
    graph.dependencies m = (d.map (·.2)).eraseDups
  undrawn : ∀ m, m ∉ expanded → graph.dependencies m = []

/-- A round draws the edges of its members, and only these. -/
theorem Expanded.advance {r r' : Registry κ} {may : ModuleId → Prop} {growth : Growth}
    {found : List Dependencies} (before : Expanded r graph expanded)
    (modules : graph.modules = expanded ++ round) (distinct : graph.modules.Nodup)
    (grows : r.Grows may r') (each : List.Forall₂ (fun m d => r'.Resolved m d) round found)
    (sketched : Sketched limits.maxModules graph (strokesOf (round.zip found)) growth) :
    Expanded r' growth.graph graph.modules := by
  have apart := List.nodup_append.mp (modules ▸ distinct)
  refine ⟨fun m member => ?_, fun m absent => ?_⟩
  · rw [modules] at member
    rcases List.mem_append.mp member with early | now
    · obtain ⟨d, resolved, same⟩ := before.drawn m early
      have other : m ∉ round := fun now => apart.2.2 m early m now rfl
      refine ⟨d, resolved.grows grows, ?_⟩
      rw [sketched.dependencies m _ same, targets_of_source apart.2.1 each, if_neg other,
        List.append_nil]
    · have other : m ∉ expanded := fun early => apart.2.2 m early m now rfl
      obtain ⟨sources, all⟩ := resolved_of_zip each
      obtain ⟨d, held⟩ := all m now
      have resolved := (sources _ held).2
      refine ⟨d, resolved, ?_⟩
      rw [sketched.dependencies m [] (by simpa using before.undrawn m other),
        targets_of_source apart.2.1 each, if_pos now, List.nil_append, resolved.targets]
  · rw [modules, List.mem_append, not_or] at absent
    rw [sketched.dependencies m [] (by simpa using before.undrawn m absent.1),
      targets_of_source apart.2.1 each, if_neg absent.2]
    rfl

/-- Rounds go on in breadth, and what is expanded has all its edges. -/
theorem grow_spans (bound : Nat) (modules : graph.modules = expanded ++ round)
    (distinct : graph.modules.Nodup) (size : graph.size ≤ limits.room)
    (before : Expanded stock.registry graph expanded) :
    Yields (fun _ => True) (grow resolver loader limits bound graph round) stock fun g r =>
      Spans limits.room r graph.entry graph.modules round g := by
  have finished : ∀ {graph : ModuleGraph} {stock : Stock κ ℓ} {bound : Nat},
      graph.size ≤ limits.room → Expanded stock.registry graph graph.modules →
      Yields (fun _ => True) (grow resolver loader limits bound graph []) stock fun g r =>
        Spans limits.room r graph.entry graph.modules [] g := by
    intro graph stock bound size before
    rw [grow_nil]
    refine yields_pure ⟨rfl, .done, fun m member => ?_, size⟩
    obtain ⟨d, resolved, same⟩ := before.drawn m member
    rw [same, resolved.targets]
  induction bound generalizing graph expanded round stock with
  | zero =>
    cases round with
    | nil =>
      rw [List.append_nil] at modules
      exact finished size (modules ▸ before)
    | cons m rest => exact yields_throw
  | succ bound ih =>
    by_cases nonempty : round = []
    · subst nonempty
      rw [List.append_nil] at modules
      exact finished size (modules ▸ before)
    have inside : ∀ m ∈ round, m ∈ graph.modules := fun m member =>
      modules ▸ List.mem_append_right _ member
    rw [grow_eq nonempty]
    refine yields_bind (yields_advance distinct inside) fun growth between grows _ advanced => ?_
    obtain ⟨found, each, sketched⟩ := advanced
    have next := ih sketched.found (sketched.modules ▸ nodup_eraseDups _) (sketched.size size)
      (before.advance modules distinct grows each sketched)
    refine next.grown.mono (fun _ _ => trivial) fun g r ⟨spans, further⟩ => ?_
    refine ⟨spans.entry.trans sketched.entry, .round nonempty ?_ (sketched.found ▸ spans.order),
      spans.dependencies, spans.size⟩
    have later : List.Forall₂ (fun m d => r.Resolved m d) round found :=
      each.imp fun _ _ resolved => resolved.grows further
    rw [← targets_strokesOf later, ← sketched.modules, sketched.found]

theorem yields_opening {entry : String} :
    Yields (fun _ => True) (opening resolver loader entry) stock fun g r =>
      ∃ i, r.get? g.entry = some i ∧ g = .new g.entry i.identity i.kind ∧
        resolver entry none = .ok i.identity := by
  unfold opening
  apply yields_bind yields_resolved
  intro identity between _ _ resolves
  refine yields_bind yields_obtain.grown fun m between _ _ ⟨⟨i, known, named⟩, _⟩ => ?_
  refine yields_bind yields_instanceOf.grown fun j last _ _ ⟨known', grows⟩ => ?_
  obtain ⟨_, same, _⟩ := grows.kept m i known
  rw [known'] at same
  cases same
  subst named
  exact yields_pure ⟨_, known', rfl, resolves⟩

/-- A build finds no entry, or its rounds come to an end. -/
inductive Runs (resolver : Specifier.Resolver) (loader : Loader κ ℓ) (limits : BuildLimits)
    (entry : String) (stock : Stock κ ℓ) :
    List (List ModuleId) → Except Stop ModuleGraph × Stock κ ℓ → Prop where
  | unopened {reason : Stop} {last : Stock κ ℓ}
      (stops : (opening resolver loader entry).outcome stock = (.error reason, last)) :
      Runs resolver loader limits entry stock [] (.error reason, last)
  | opened {graph : ModuleGraph} {between : Stock κ ℓ} {rounds : List (List ModuleId)}
      {ended : Except Stop ModuleGraph × Stock κ ℓ}
      (opens : (opening resolver loader entry).outcome stock = (.ok graph, between))
      (rest : Rounds resolver loader limits graph graph.modules between rounds ended) :
      Runs resolver loader limits entry stock rounds ended

/-- A build ends without a bound on its rounds, whatever it loads. It expands no module
twice, and no more modules than a graph has room for. -/
theorem build_runs (resolver : Specifier.Resolver) (loader : Loader κ ℓ) (limits : BuildLimits)
    (entry : String) (stock : Stock κ ℓ) (stocked : stock.registry.Stocked) :
    ∃ rounds, Runs resolver loader limits entry stock rounds
        ((build resolver loader limits entry).outcome stock) ∧
      rounds.flatten.Nodup ∧ rounds.flatten.length ≤ limits.room := by
  rw [build_eq, outcome_bind]
  rcases opens : (opening resolver loader entry).outcome stock with ⟨reason | graph, between⟩
  · exact ⟨[], .unopened opens, by simp, by simp⟩
  · obtain ⟨i, _, same, _⟩ := (yields_opening stocked).2.2 graph (congrArg Prod.fst opens)
    have modules : graph.modules = [graph.entry] := by rw [same]; rfl
    obtain ⟨rounds, rest, apart, few⟩ := exists_rounds (limits.maxModules + 1)
      (List.nil_append graph.modules).symm (by simp [modules])
      (by rw [size_eq, modules]; exact limits.one_le_room) (by simp)
    exact ⟨rounds, .opened opens rest, apart, few⟩

/-- The graph that a build gives holds what was found in breadth from its entry. -/
theorem build_spans (resolver : Specifier.Resolver) (loader : Loader κ ℓ) (limits : BuildLimits)
    (entry : String) (stock : Stock κ ℓ) :
    Yields (fun _ => True) (build resolver loader limits entry) stock fun g r =>
      Spans limits.room r g.entry [g.entry] [g.entry] g ∧
        ∃ i, r.get? g.entry = some i ∧ resolver entry none = .ok i.identity := by
  rw [build_eq]
  refine yields_bind yields_opening fun graph between _ _ opened => ?_
  obtain ⟨i, known, same, resolves⟩ := opened
  have modules : graph.modules = [graph.entry] := by rw [same]; rfl
  have before : Expanded between.registry graph [] := by
    refine ⟨by simp, fun m _ => ?_⟩
    rw [same]
    by_cases here : graph.entry = m <;> simp [dependencies, node?, ModuleGraph.new, addModule,
      contains, here]
  have spans : Yields (fun _ => True)
      (grow resolver loader limits (limits.maxModules + 1) graph graph.modules) between fun g r =>
        Spans limits.room r graph.entry graph.modules graph.modules g :=
    grow_spans _ (List.nil_append _).symm (by simp [modules])
      (by rw [size_eq, modules]; exact limits.one_le_room) before
  refine spans.grown.mono (fun _ _ => trivial) fun g r held => ?_
  obtain ⟨⟨entry, order, dependencies, size⟩, grows⟩ := held
  rw [modules, ← entry] at order
  obtain ⟨later, known', _⟩ := grows.kept graph.entry i known
  refine ⟨⟨rfl, order, dependencies, size⟩, { i with dependencies := later }, ?_, resolves⟩
  rw [entry, known']

end ModuleGraph
end MixedModules
