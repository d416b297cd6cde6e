import MixedModules.Proofs.Graph.Outline
import MixedModules.Proofs.History.Incremental

/-! Building anew comes to the same as building for the first time.

What earlier builds have loaded, and where they stopped, makes no difference to a later
one, nor does the number of modules that are expanded at a time. A build gives the graph
that a new engine would give, one module at a time, or it stops for the same reason. Modules
that are expanded side by side are taken to load one after the other. -/
namespace MixedModules

variable {κ σ ℓ : Type}

namespace Registry

variable {r : Registry κ} {supply : Supply κ}

/-- Numbers and identities go together one to one, and what is registered was handed over
and passed its check. -/
structure Indexed (r : Registry κ) (supply : Supply κ) : Prop where
  found : ∀ identity m, r.lookup identity = some m ↔ ∃ i, r.get? m = some i ∧ i.identity = identity
  dense : ∀ m, (∃ i, r.get? m = some i) ↔ m.index < r.size
  offered : ∀ m i, r.get? m = some i → supply.Offers i.identity i.record

theorem SuppliedBy.indexed (supplied : r.SuppliedBy supply) (stocked : r.Stocked) :
    r.Indexed supply := by
  refine ⟨fun identity m => Distinct.lookup_iff supplied.distinct, fun m => ⟨?_, fun inside => ?_⟩,
    fun m i known => supplied.offers stocked known⟩
  · rintro ⟨i, known⟩
    exact lt_size_of_get? known
  · exact ⟨_, Array.getElem?_eq_getElem inside⟩

end Registry

/-- What a build comes to, against a build of the same on a new engine, one module at a
time: the graph differs in the numbers of its modules only, and stops are alike. -/
inductive ModuleGraph.Repeats (concurrency : Nat) :
    Except Stop ModuleGraph → Except Stop ModuleGraph → Prop where
  | built {g : ModuleGraph} {f : ModuleId → ModuleId} (apart : g.Separates f) :
      Repeats concurrency (.ok g) (.ok (g.rename f))
  | stopped {reason met : Stop} (like : reason.ComesTo concurrency met) :
      Repeats concurrency (.error met) (.error reason)

/-- Builds that come to the same without a registry come to the same. -/
theorem ModuleGraph.Repeats.of_alike {concurrency : Nat} {identities : Except Stop (List String)}
    {result alone : Except Stop ModuleGraph}
    (here : Alike (Stop.ComesTo concurrency) (fun _ _ => True) identities result)
    (there : Alike (Stop.ComesTo 1) (fun _ _ => True) identities alone)
    (renames : ∀ g g', result = .ok g → alone = .ok g' → ∃ f, g.Separates f ∧ g' = g.rename f) :
    Repeats concurrency result alone := by
  cases here with
  | ok _ =>
    cases there with
    | ok _ =>
      obtain ⟨f, apart, rfl⟩ := renames _ _ rfl rfl
      exact .built apart
  | error like =>
    cases there with
    | error same =>
      cases same.resolve_right fun several => absurd several.1 (Nat.lt_irrefl 1)
      exact .stopped like

namespace Site

variable {setup : Setup κ σ ℓ} {site : Site κ σ ℓ} {supply : Supply κ}

/-- What is there after a history in which each call is made under bounds of its own. -/
def runUnder (setup : Setup κ σ ℓ) (site : Site κ σ ℓ)
    (calls : List (BuildLimits × Call κ σ ℓ)) : Site κ σ ℓ :=
  calls.foldl (fun site call => site.make { setup with limits := call.1 } call.2) site

/-- Bounds on builds have no part in what is orderly. -/
theorem Orderly.under (orderly : Orderly setup site) (limits : BuildLimits) :
    Orderly { setup with limits } site :=
  { orderly with }

/-- Whatever the bounds of its calls are, a history keeps a site orderly and filled from
the supply that the setup works on. -/
theorem supplied_of_runUnder (setup : Setup κ σ ℓ) (works : setup.WorksOn supply) (memo : σ)
    (source : ℓ) (calls : List (BuildLimits × Call κ σ ℓ)) :
    Orderly setup ((Site.start memo source).runUnder setup calls) ∧
      ((Site.start memo source).runUnder setup calls).registry.SuppliedBy supply := by
  induction calls using List.reverseRecOn with
  | nil => exact ⟨.start memo source, .empty⟩
  | append_singleton calls call ih =>
    obtain ⟨orderly, supplied⟩ := ih
    rw [runUnder, List.foldl_append]
    have orderly := orderly.under call.1
    exact ⟨(orderly.make call.2).under setup.limits,
      orderly.supplied_make ⟨works.resolver, works.steady⟩ supplied call.2⟩

/-- What a build comes to is settled by the supply. -/
theorem alike_build (works : setup.WorksOn supply) (stocked : site.registry.Stocked)
    (supplied : site.registry.SuppliedBy supply) (entry : String) :
    Alike (Stop.ComesTo setup.limits.concurrency) (fun _ _ => True)
      (supply.verdict setup.limits.maxModules entry)
      (site.engine.build setup.resolver setup.loader setup.limits entry site.source).1 := by
  have answers := (ModuleGraph.answers_build works.steady setup.limits entry
    ⟨site.registry, site.source⟩ stocked supplied).2
  rw [← works.resolver] at answers
  exact answers.mono (fun _ _ like => like) fun _ _ _ => trivial

/-- Two builds of an entry that both give a graph give the same, save for the numbers of its
modules. -/
theorem rename_of_built {site' : Site κ σ ℓ} {limits' : BuildLimits} {entry : String}
    {g g' : ModuleGraph} (works : setup.WorksOn supply) (orderly : Orderly setup site)
    (supplied : site.registry.SuppliedBy supply) (orderly' : Orderly setup site')
    (supplied' : site'.registry.SuppliedBy supply)
    (built : (site.engine.build setup.resolver setup.loader setup.limits entry site.source).1 = .ok g)
    (built' : (site'.engine.build setup.resolver setup.loader limits' entry site'.source).1 =
      .ok g') : ∃ f, g.Separates f ∧ g' = g.rename f := by
  have works' : ({ setup with limits := limits' } : Setup κ σ ℓ).WorksOn supply :=
    ⟨works.resolver, works.steady⟩
  obtain ⟨start, resolves, whole, _⟩ :=
    exact_of_build works orderly.stocked supplied (Prod.ext built rfl)
  obtain ⟨start', resolves', whole', _⟩ :=
    exact_of_build works' orderly'.stocked supplied' (Prod.ext built' rfl)
  cases resolves.symm.trans resolves'
  have faithful := (Orderly.build_yields setup site entry orderly.stocked).2.2 g built
  have faithful' := (Orderly.build_yields { setup with limits := limits' } site' entry
    orderly'.stocked).2.2 g' built'
  exact ⟨g.counterpart g',
    whole.toWhole.separates_counterpart faithful whole'.toWhole faithful',
    whole.toWhole.eq_rename faithful whole'.toWhole faithful'⟩

/-- In every history in which the loader hands over the same each time, a build comes to
what it comes to on a new engine that expands one module at a time, and the registry stays
in order whether it succeeds or not. -/
theorem build_repeats (setup : Setup κ σ ℓ) (works : setup.WorksOn supply) (memo : σ) (source : ℓ)
    (calls : List (BuildLimits × Call κ σ ℓ)) {site : Site κ σ ℓ}
    (history : site = (Site.start memo source).runUnder setup calls) (limits : BuildLimits)
    (entry : String) (fresh : ℓ) :
    ModuleGraph.Repeats limits.concurrency
        (site.engine.build setup.resolver setup.loader limits entry site.source).1
        (Engine.new.build setup.resolver setup.loader ⟨1, limits.maxModules⟩ entry fresh).1 ∧
      site.registry.Indexed supply ∧
      (site.engine.build setup.resolver setup.loader limits entry
        site.source).2.1.registry.Indexed supply := by
  obtain ⟨orderly, supplied⟩ : Orderly setup site ∧ site.registry.SuppliedBy supply :=
    history ▸ supplied_of_runUnder setup works memo source calls
  have works' : ∀ limits, ({ setup with limits } : Setup κ σ ℓ).WorksOn supply :=
    fun _ => ⟨works.resolver, works.steady⟩
  have later : Orderly { setup with limits } (site.make { setup with limits } (.build entry)) :=
    (orderly.under limits).make (.build entry)
  have laterSupplied := (orderly.under limits).supplied_make (works' limits) supplied (.build entry)
  refine ⟨?_, supplied.indexed orderly.stocked, laterSupplied.indexed later.stocked⟩
  have scratch : Orderly { setup with limits } (.start memo fresh) := .start memo fresh
  have here := alike_build (works' limits) orderly.stocked supplied entry
  have alone := alike_build (works' ⟨1, limits.maxModules⟩) scratch.stocked .empty entry
  exact .of_alike here alone fun g g' built built' =>
    rename_of_built (works' limits) (orderly.under limits) supplied scratch .empty built built'

/-- In the small history the reader is too large for one build, which leaves it behind under
a number of its own. A later build expands two modules at a time, and gives what a new engine
gives under other numbers. -/
theorem reader_repeats : ∃ site g f, site = (Site.start () ()).runUnder Sample.setup
      [(⟨1, 10⟩, .build "counter"), (⟨1, 1⟩, .build "reader")] ∧
    site.graphs.length = 1 ∧ site.registry.size = 2 ∧
    (site.engine.build Sample.setup.resolver Sample.setup.loader ⟨2, 10⟩ "reader" site.source).1 =
      .ok g ∧ g.modules = [⟨1⟩, ⟨0⟩] ∧
    (Engine.new.build Sample.setup.resolver Sample.setup.loader ⟨1, 10⟩ "reader" ()).1 =
      .ok (g.rename f) ∧ (g.rename f).modules = [⟨0⟩, ⟨1⟩] := by
  generalize ended : (Site.start () ()).runUnder Sample.setup
    [(⟨1, 10⟩, .build "counter"), (⟨1, 1⟩, .build "reader")] = site
  have facts : site.graphs.length = 1 ∧ site.registry.size = 2 ∧
      (site.engine.build Sample.setup.resolver Sample.setup.loader ⟨2, 10⟩ "reader"
        site.source).1.toOption.map ModuleGraph.modules = some [⟨1⟩, ⟨0⟩] := by
    rw [← ended]
    decide +kernel
  have alone : (Engine.new.build Sample.setup.resolver Sample.setup.loader ⟨1, 10⟩ "reader"
      ()).1.toOption.map ModuleGraph.modules = some [⟨0⟩, ⟨1⟩] := by
    decide +kernel
  obtain ⟨graphs, size, modules⟩ := facts
  have works : Sample.setup.WorksOn Sample.supply := ⟨rfl, fun _ _ => rfl⟩
  obtain ⟨repeats, _⟩ := build_repeats Sample.setup works () () _ ended.symm ⟨2, 10⟩ "reader" ()
  generalize result : (site.engine.build Sample.setup.resolver Sample.setup.loader ⟨2, 10⟩ "reader"
    site.source).1 = built at repeats modules
  generalize (Engine.new.build Sample.setup.resolver Sample.setup.loader ⟨1, 10⟩ "reader"
    ()).1 = other at repeats alone
  cases repeats with
  | stopped => cases modules
  | built =>
    exact ⟨site, _, _, rfl, graphs, size, result, Option.some.inj modules, rfl,
      Option.some.inj alone⟩

end Site
end MixedModules
