import Mathlib.Data.List.Chain
import Mathlib.Data.List.Nodup
import Mathlib.Data.List.Perm.Subperm
import Mathlib.Logic.Relation
import MixedModules.Graph.BinaryCycle

/-! The search for cycles of binary modules finds one exactly when there is one.

A module that the search has seen is on the path that it follows, or it is finished.
What a finished module leads to is finished too, so no cycle goes through it, and the
first edge back into the path closes one. -/
namespace MixedModules.ModuleGraph
open Relation

variable {g : ModuleGraph} {path seen : List ModuleId} {m : ModuleId} {depth : Nat}

/-- A dependency between binary modules. -/
def BinaryEdge (g : ModuleGraph) (m next : ModuleId) : Prop :=
  g.isBinary m = true ∧ g.isBinary next = true ∧ next ∈ g.dependencies m

/-- A closed way through binary modules, its first module repeated at the end. -/
def BinaryCycle (g : ModuleGraph) (cycle : List ModuleId) : Prop :=
  ∃ m inner, cycle = m :: (inner ++ [m]) ∧ cycle.IsChain g.BinaryEdge

theorem mem_modules_of_isBinary (binary : g.isBinary m = true) : m ∈ g.modules := by
  unfold isBinary node? at binary
  cases found : g.nodes.find? fun n => n.id = m with
  | none =>
    rw [found] at binary
    cases binary
  | some n =>
    have same : n.id = m := by simpa using List.find?_some found
    exact same ▸ List.mem_map_of_mem (List.mem_of_find?_eq_some found)

/-- A cycle that comes through each of its modules once, and is closed at the end. -/
structure SimpleCycle (g : ModuleGraph) (cycle : List ModuleId) : Prop where
  closed : g.BinaryCycle cycle
  once : cycle.dropLast.Nodup

/-- Whoever stands on a cycle comes back to where it is. -/
theorem BinaryCycle.comes_back {cycle : List ModuleId} (closed : g.BinaryCycle cycle) :
    ∃ m, TransGen g.BinaryEdge m m := by
  obtain ⟨m, inner, rfl, way⟩ := closed
  refine ⟨m, ?_⟩
  cases inner with
  | nil => exact .single (List.isChain_pair.mp way)
  | cons next rest =>
    obtain ⟨edge, way⟩ := List.isChain_cons_cons.mp way
    exact .head' edge (List.relationReflTransGen_of_exists_isChain_cons _ way (by simp))

/-- An edge from the last module of a way back to one on it closes a cycle. What lies
before that module is off the cycle. -/
theorem simpleCycle_of_back {next : ModuleId} (way : (path ++ [m]).IsChain g.BinaryEdge)
    (distinct : (path ++ [m]).Nodup) (member : next ∈ path ++ [m]) (back : g.BinaryEdge m next) :
    g.SimpleCycle ((path ++ [m]).dropWhile (· ≠ next) ++ [next]) := by
  have split : ∀ whole : List ModuleId, next ∈ whole → ∃ before rest,
      whole = before ++ next :: rest ∧ whole.dropWhile (· ≠ next) = next :: rest := by
    intro whole
    induction whole with
    | nil => simp
    | cons head tail ih =>
      intro inside
      by_cases same : head = next
      · exact ⟨[], tail, by rw [same]; rfl, by simp [same]⟩
      · obtain ⟨before, rest, parts, dropped⟩ :=
          ih ((List.mem_cons.mp inside).resolve_left (Ne.symm same))
        exact ⟨head :: before, rest, by rw [parts]; rfl, by simpa [same] using dropped⟩
  obtain ⟨before, rest, parts, dropped⟩ := split _ member
  have last : (next :: rest).getLast? = some m := by
    have whole : (path ++ [m]).getLast? = some m := by simp
    rwa [parts, List.getLast?_append_of_ne_nil _ (List.cons_ne_nil _ _)] at whole
  have once := List.Nodup.sublist (List.dropWhile_sublist (· ≠ next)) distinct
  rw [parts] at way
  refine ⟨⟨next, rest, by rw [dropped]; rfl, ?_⟩, by simpa only [List.dropLast_concat] using once⟩
  rw [dropped]
  refine List.isChain_append.mpr ⟨(List.isChain_append.mp way).2.1, .singleton next, ?_⟩
  intro x final y only
  cases only
  cases last.symm.trans final
  exact back

/-- What the search knows: modules on the path are seen, and those that are seen
otherwise lead to such modules only and stand on no cycle. -/
structure Searched (g : ModuleGraph) (path seen : List ModuleId) : Prop where
  waiting : ∀ m ∈ path, m ∈ seen
  closed : ∀ m ∈ seen, m ∉ path → ∀ next, g.BinaryEdge m next → next ∈ seen ∧ next ∉ path
  acyclic : ∀ m ∈ seen, m ∉ path → ¬ TransGen g.BinaryEdge m m

/-- What a part of the search comes to: a cycle, or more that is seen. -/
def Comes (g : ModuleGraph) (path seen : List ModuleId) (more : List ModuleId → Prop) :
    Except (List ModuleId) (List ModuleId) → Prop
  | .error cycle => g.SimpleCycle cycle
  | .ok seen' => g.Searched path seen' ∧ (∀ x ∈ seen, x ∈ seen') ∧ more seen'

theorem Comes.imp {path' seen' : List ModuleId} {more more' : List ModuleId → Prop}
    {result : Except (List ModuleId) (List ModuleId)} (comes : g.Comes path seen more result)
    (later : ∀ s, g.Searched path s → (∀ x ∈ seen, x ∈ s) → more s →
      g.Searched path' s ∧ (∀ x ∈ seen', x ∈ s) ∧ more' s) : g.Comes path' seen' more' result := by
  cases result with
  | error cycle => exact comes
  | ok s => exact later s comes.1 comes.2.1 comes.2.2

/-- A search goes on with one module after the other. -/
private theorem comes_foldlM {step : List ModuleId → ModuleId → Except (List ModuleId) (List ModuleId)}
    {found : ModuleId → List ModuleId → Prop} (todo : List ModuleId)
    (kept : ∀ m seen seen', (∀ x ∈ seen, x ∈ seen') → found m seen → found m seen')
    (searched : g.Searched path seen)
    (each : ∀ m ∈ todo, ∀ seen, g.Searched path seen → g.Comes path seen (found m) (step seen m)) :
    g.Comes path seen (fun seen' => ∀ m ∈ todo, found m seen') (todo.foldlM step seen) := by
  induction todo generalizing seen with
  | nil => exact ⟨searched, fun _ held => held, by simp⟩
  | cons m rest ih =>
    have here := each m List.mem_cons_self seen searched
    rw [List.foldlM_cons]
    cases first : step seen m with
    | error cycle =>
      rw [first] at here
      exact here
    | ok between =>
      rw [first] at here
      obtain ⟨searched', grown, own⟩ := here
      have later := ih searched' fun x member => each x (List.mem_cons_of_mem m member)
      refine later.imp fun seen' last grown' all =>
        ⟨last, fun x held => grown' x (grown x held), fun x member => ?_⟩
      rcases List.mem_cons.mp member with rfl | member
      · exact kept x between seen' grown' own
      · exact all x member

/-- A module whose dependencies are finished is finished. -/
private theorem Searched.finish (searched : g.Searched (path ++ [m]) seen) (unstacked : m ∉ path)
    (below : ∀ next, g.BinaryEdge m next → next ∈ seen ∧ next ∉ path ++ [m]) :
    g.Searched path seen := by
  have finished : ∀ x ∈ seen, x ∉ path → x ≠ m → x ∉ path ++ [m] := by
    intro x _ apart other held
    rcases List.mem_append.mp held with held | held
    · exact apart held
    · exact other (List.mem_singleton.mp held)
  have closed : ∀ x ∈ seen, x ∉ path → ∀ next, g.BinaryEdge x next →
      next ∈ seen ∧ next ∉ path ++ [m] := by
    intro x held apart next edge
    by_cases same : x = m
    · subst same
      exact below next edge
    · exact searched.closed x held (finished x held apart same) next edge
  refine ⟨fun x held => searched.waiting x (List.mem_append_left _ held),
    fun x held apart next edge => ?_, fun x held apart => ?_⟩
  · obtain ⟨held', apart'⟩ := closed x held apart next edge
    exact ⟨held', fun stacked => apart' (List.mem_append_left _ stacked)⟩
  · by_cases same : x = m
    · subst same
      -- The way goes on through finished modules, and this one is not finished yet.
      intro round
      have away : ∀ y, TransGen g.BinaryEdge x y → y ∈ seen ∧ y ∉ path ++ [x] := by
        intro y way
        induction way with
        | single edge => exact below _ edge
        | tail _ edge ih => exact searched.closed _ ih.1 ih.2 _ edge
      exact (away x round).2 (by simp)
    · exact searched.acyclic x held (finished x held apart same)

/-- What the search does with a dependency of the last module of `path`. -/
def turn (g : ModuleGraph) (depth : Nat) (path seen : List ModuleId) (next : ModuleId) :
    Except (List ModuleId) (List ModuleId) :=
  if !g.isBinary next then .ok seen
  else if !seen.contains next then g.searchBinary depth path next seen
  else if path.contains next then .error (path.dropWhile (· ≠ next) ++ [next])
  else .ok seen

theorem searchBinary_succ : g.searchBinary (depth + 1) path m seen =
    (g.dependencies m).foldlM (g.turn depth (path ++ [m])) (m :: seen) := rfl

private theorem nodup_snoc (distinct : path.Nodup) (unstacked : m ∉ path) : (path ++ [m]).Nodup :=
  List.nodup_append.mpr ⟨distinct, List.nodup_cons.mpr ⟨List.not_mem_nil, List.nodup_nil⟩,
    fun x held y only same => by
      rw [List.mem_singleton.mp only] at same
      exact unstacked (same ▸ held)⟩

/-- A module that the search begins is seen, and on the path. -/
private theorem Searched.push (searched : g.Searched path seen) (fresh : m ∉ seen) :
    g.Searched (path ++ [m]) (m :: seen) := by
  have split : ∀ x, x ∈ m :: seen → x ∉ path ++ [m] → x ∈ seen ∧ x ∉ path := by
    intro x held apart
    simp only [List.mem_append, List.mem_singleton, not_or] at apart
    exact ⟨(List.mem_cons.mp held).resolve_left apart.2, apart.1⟩
  refine ⟨fun x held => ?_, fun x held apart next edge => ?_, fun x held apart => ?_⟩
  · rcases List.mem_append.mp held with held | held
    · exact List.mem_cons_of_mem m (searched.waiting x held)
    · exact List.mem_singleton.mp held ▸ List.mem_cons_self
  · obtain ⟨held, apart⟩ := split x held apart
    obtain ⟨held', apart'⟩ := searched.closed x held apart next edge
    refine ⟨List.mem_cons_of_mem m held', fun stacked => ?_⟩
    rcases List.mem_append.mp stacked with stacked | same
    · exact apart' stacked
    · exact fresh (List.mem_singleton.mp same ▸ held')
  · obtain ⟨held, apart⟩ := split x held apart
    exact searched.acyclic x held apart

/-- A dependency of the last module of the path closes a cycle, or it is finished, now or by
the search below it. -/
private theorem comes_turn {next : ModuleId} (searched : g.Searched (path ++ [m]) seen)
    (distinct : (path ++ [m]).Nodup) (way : (path ++ [m]).IsChain g.BinaryEdge)
    (binary : g.isBinary m = true) (member : next ∈ g.dependencies m)
    (below : g.BinaryEdge m next → next ∉ seen →
      g.Comes (path ++ [m]) seen (fun seen' => next ∈ seen' ∧ next ∉ path ++ [m])
        (g.searchBinary depth (path ++ [m]) next seen)) :
    g.Comes (path ++ [m]) seen (fun seen' => g.isBinary next = true →
      next ∈ seen' ∧ next ∉ path ++ [m]) (g.turn depth (path ++ [m]) seen next) := by
  unfold turn
  by_cases here : g.isBinary next = true
  · have edge : g.BinaryEdge m next := ⟨binary, here, member⟩
    rw [if_neg (by simp [here])]
    by_cases known : next ∈ seen
    · rw [if_neg (by simp [known])]
      by_cases stacked : next ∈ path ++ [m]
      · rw [if_pos (List.contains_iff_mem.mpr stacked)]
        exact simpleCycle_of_back way distinct stacked edge
      · rw [if_neg fun held => stacked (List.contains_iff_mem.mp held)]
        exact ⟨searched, fun _ held => held, fun _ => ⟨known, stacked⟩⟩
    · rw [if_pos (by simp [known])]
      exact (below edge known).imp fun _ searched' grown found => ⟨searched', grown, fun _ => found⟩
  · rw [if_pos (by simp [here])]
    exact ⟨searched, fun _ held => held, fun wrong => absurd wrong here⟩

/-- A way that goes on along one more edge. -/
private theorem isChain_snoc {next : ModuleId} (way : (path ++ [m]).IsChain g.BinaryEdge)
    (edge : g.BinaryEdge m next) : (path ++ [m] ++ [next]).IsChain g.BinaryEdge := by
  refine List.isChain_append.mpr ⟨way, .singleton next, fun x final y only => ?_⟩
  cases only
  have last : m = x := by simpa using final
  exact last ▸ edge

/-- Below a module that was not seen the search finds a cycle, or finishes the module. -/
theorem comes_searchBinary (searched : g.Searched path seen) (distinct : path.Nodup)
    (binary : ∀ x ∈ path ++ [m], g.isBinary x = true) (fresh : m ∉ seen)
    (way : (path ++ [m]).IsChain g.BinaryEdge) (deep : g.size ≤ depth + path.length) :
    g.Comes path seen (fun seen' => m ∈ seen' ∧ m ∉ path) (g.searchBinary depth path m seen) := by
  have unstacked : m ∉ path := fun held => fresh (searched.waiting m held)
  have distinct' := nodup_snoc distinct unstacked
  induction depth generalizing path m seen with
  | zero =>
    -- The path with its new end is too long for the modules there are.
    have room := (List.subperm_of_subset distinct' fun x held =>
      mem_modules_of_isBinary (binary x held)).length_le
    simp only [List.length_append, List.length_singleton, modules, List.length_map] at room
    unfold size at deep
    omega
  | succ depth ih =>
    have turns : ∀ next ∈ g.dependencies m, ∀ seen, g.Searched (path ++ [m]) seen →
        g.Comes (path ++ [m]) seen (fun seen' => g.isBinary next = true →
          next ∈ seen' ∧ next ∉ path ++ [m]) (g.turn depth (path ++ [m]) seen next) := by
      intro next member seen searched
      refine comes_turn searched distinct' way (binary m (by simp)) member fun edge unseen => ?_
      have apart : next ∉ path ++ [m] := fun held => unseen (searched.waiting next held)
      refine ih searched distinct' (fun x held => ?_) unseen (isChain_snoc way edge) ?_ apart
        (nodup_snoc distinct' apart)
      · rcases List.mem_append.mp held with held | held
        · exact binary x held
        · exact List.mem_singleton.mp held ▸ edge.2.1
      · simp only [List.length_append, List.length_singleton]
        omega
    have loop := comes_foldlM (g.dependencies m)
      (fun next seen seen' grown found (binary : g.isBinary next = true) =>
        (⟨grown next (found binary).1, (found binary).2⟩ : next ∈ seen' ∧ next ∉ path ++ [m]))
      (searched.push fresh) turns
    rw [searchBinary_succ]
    refine loop.imp fun seen' searched' grown all =>
      ⟨?_, fun x held => grown x (List.mem_cons_of_mem m held), grown m List.mem_cons_self, unstacked⟩
    exact searched'.finish unstacked fun next edge => all next edge.2.2 edge.2.1

/-- The search from each binary module in turn. -/
def searchAll (g : ModuleGraph) : Except (List ModuleId) (List ModuleId) :=
  g.modules.foldlM (fun seen m => if !g.isBinary m || seen.contains m then .ok seen
    else g.searchBinary g.size [] m seen) []

theorem binaryCycle?_eq (g : ModuleGraph) : g.binaryCycle? = match g.searchAll with
    | .ok _ => none
    | .error cycle => some cycle := rfl

theorem comes_searchAll (g : ModuleGraph) :
    g.Comes [] [] (fun seen => ∀ m ∈ g.modules, g.isBinary m = true → m ∈ seen) g.searchAll := by
  refine comes_foldlM g.modules (fun m seen seen' grown found (binary : g.isBinary m = true) =>
    grown m (found binary)) ⟨by simp, by simp, by simp⟩ fun m _ seen searched => ?_
  by_cases skipped : g.isBinary m = true → m ∈ seen
  · rw [if_pos (by by_cases binary : g.isBinary m = true <;> simp_all)]
    exact ⟨searched, fun _ held => held, skipped⟩
  · obtain ⟨binary, fresh⟩ := Classical.not_imp.mp skipped
    have deep : g.size ≤ g.size + ([] : List ModuleId).length := by simp
    have below := comes_searchBinary searched List.nodup_nil (by simpa using binary) fresh
      (.singleton m) deep
    rw [if_neg (by simp [binary, fresh])]
    exact below.imp fun _ searched' grown found => ⟨searched', grown, fun _ => found.1⟩

/-- What the search reports is a cycle, and no detour is on it. -/
theorem simpleCycle_of_found {cycle : List ModuleId} (found : g.binaryCycle? = some cycle) :
    g.SimpleCycle cycle := by
  have whole := comes_searchAll g
  rw [binaryCycle?_eq] at found
  cases result : g.searchAll with
  | error cycle =>
    rw [result] at whole found
    cases found
    exact whole
  | ok seen =>
    rw [result] at found
    cases found

theorem binaryCycle_of_found {cycle : List ModuleId} (found : g.binaryCycle? = some cycle) :
    g.BinaryCycle cycle := (simpleCycle_of_found found).closed

/-- Where the search reports none, nobody comes back to where it is. -/
theorem never_back (missed : g.binaryCycle? = none) (m : ModuleId) : ¬ TransGen g.BinaryEdge m m := by
  intro round
  have whole := comes_searchAll g
  rw [binaryCycle?_eq] at missed
  cases result : g.searchAll with
  | error cycle =>
    rw [result] at missed
    cases missed
  | ok seen =>
    rw [result] at whole
    obtain ⟨searched, _, all⟩ := whole
    obtain ⟨next, edge, _⟩ := TransGen.head'_iff.mp round
    exact searched.acyclic m (all m (mem_modules_of_isBinary edge.1) edge.1) List.not_mem_nil round

/-- So there is no cycle then. -/
theorem no_binaryCycle (missed : g.binaryCycle? = none) (cycle : List ModuleId) :
    ¬ g.BinaryCycle cycle := fun closed => by
  obtain ⟨m, round⟩ := closed.comes_back
  exact never_back missed m round

/-- Only modules of the graph stand on a cycle. -/
theorem BinaryCycle.inside {cycle : List ModuleId} (closed : g.BinaryCycle cycle) :
    ∀ m ∈ cycle, m ∈ g.modules := by
  have targets : ∀ (rest : List ModuleId) (m : ModuleId), (m :: rest).IsChain g.BinaryEdge →
      ∀ x ∈ rest, x ∈ g.modules := by
    intro rest
    induction rest with
    | nil => simp
    | cons next rest ih =>
      intro m way
      obtain ⟨edge, way⟩ := List.isChain_cons_cons.mp way
      exact List.forall_mem_cons.mpr ⟨mem_modules_of_isBinary edge.2.1, ih next way⟩
  obtain ⟨m, inner, rfl, way⟩ := closed
  have inside := targets _ m way
  exact List.forall_mem_cons.mpr ⟨inside m (by simp), inside⟩

/-- What is said of a cycle when it is reported: it goes along edges between binary modules
and is closed, and only the module it begins with is named twice. -/
structure Reported (g : ModuleGraph) (cycle : List ModuleId) : Prop where
  long : 2 ≤ cycle.length
  closed : cycle.head? = cycle.getLast?
  once : cycle.dropLast.Nodup
  way : cycle.IsChain g.BinaryEdge

theorem SimpleCycle.reported {cycle : List ModuleId} (simple : g.SimpleCycle cycle) :
    g.Reported cycle := by
  obtain ⟨m, inner, rfl, way⟩ := simple.closed
  exact ⟨by simp, by simp [List.getLast?_cons], simple.once, way⟩

/-- The identities of the modules in a graph are apart. -/
def IdentitiesApart (g : ModuleGraph) : Prop :=
  ∀ m ∈ g.modules, ∀ n ∈ g.modules, g.identity m = g.identity n → m = n

instance (g : ModuleGraph) : Decidable g.IdentitiesApart :=
  inferInstanceAs (Decidable (∀ m ∈ g.modules, ∀ n ∈ g.modules, g.identity m = g.identity n → m = n))

/-- A cycle is reported by the identities of its modules. -/
theorem SimpleCycle.identities_once {cycle : List ModuleId} (simple : g.SimpleCycle cycle)
    (apart : g.IdentitiesApart) : (cycle.map g.identity).dropLast.Nodup := by
  have inside : ∀ m ∈ cycle.dropLast, m ∈ g.modules := fun m member =>
    simple.closed.inside m (List.dropLast_subset cycle member)
  rw [← List.map_dropLast]
  exact simple.once.map_on fun m here n there => apart m (inside m here) n (inside n there)

/-- The search finds a cycle of binary modules exactly where there is one, in every graph
and wherever it begins. The cycle it reports is closed and simple, and so is the row of
identities that it is reported by, if the identities of the modules are apart. -/
theorem binaryCycle?_exact (g : ModuleGraph) :
    (g.binaryCycle? = none ↔ ∀ cycle, ¬ g.BinaryCycle cycle) ∧
    ∀ cycle, g.binaryCycle? = some cycle → g.Reported cycle ∧
      (cycle.map g.identity).head? = (cycle.map g.identity).getLast? ∧
      (g.IdentitiesApart → (cycle.map g.identity).dropLast.Nodup) := by
  refine ⟨⟨no_binaryCycle, fun acyclic => ?_⟩, fun cycle found => ?_⟩
  · cases found : g.binaryCycle? with
    | none => rfl
    | some cycle => exact absurd (binaryCycle_of_found found) (acyclic cycle)
  · have simple := simpleCycle_of_found found
    have reported := simple.reported
    exact ⟨reported, by simp [reported.closed], simple.identities_once⟩

/-- A module that is finished first, a way of two modules into a cycle of two, and a script
that depends on itself. -/
def detour : ModuleGraph where
  entry := ⟨0⟩
  nodes := [⟨⟨0⟩, "/lone.wasm", .binary, []⟩, ⟨⟨1⟩, "/first.wasm", .binary, [⟨5⟩, ⟨0⟩, ⟨2⟩]⟩,
    ⟨⟨2⟩, "/second.wasm", .binary, [⟨3⟩]⟩, ⟨⟨3⟩, "/left.wasm", .binary, [⟨0⟩, ⟨4⟩]⟩,
    ⟨⟨4⟩, "/right.wasm", .binary, [⟨3⟩]⟩, ⟨⟨5⟩, "/self.js", .script, [⟨5⟩, ⟨1⟩]⟩]

/-- Neither the module before the way nor the way itself is reported. -/
theorem binaryCycle?_exact_detour : detour.binaryCycle? = some [⟨3⟩, ⟨4⟩, ⟨3⟩] ∧
    detour.Reported [⟨3⟩, ⟨4⟩, ⟨3⟩] ∧ (¬ ∀ cycle, ¬ detour.BinaryCycle cycle) ∧
    ["/left.wasm", "/right.wasm"].Nodup := by
  have found : detour.binaryCycle? = some [⟨3⟩, ⟨4⟩, ⟨3⟩] := by decide +kernel
  obtain ⟨reported, -, once⟩ := (binaryCycle?_exact detour).2 _ found
  refine ⟨found, reported, fun acyclic => ?_, once (by decide +kernel)⟩
  rw [(binaryCycle?_exact detour).1.mpr acyclic] at found
  cases found

end MixedModules.ModuleGraph
