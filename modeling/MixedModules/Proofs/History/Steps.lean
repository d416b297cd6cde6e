import MixedModules.Proofs.Evaluation.Entering
import MixedModules.Proofs.Evaluation.Writing
import MixedModules.Proofs.History.Durable

/-! The past of a history, step by step.

Whatever happens to an engine, all stores that there have been follow on each other by the
steps that a module, code or a link can take. -/
namespace MixedModules

variable {κ σ ℓ : Type}

namespace Site

open Store (Lineage Moves)

variable {setup : Setup κ σ ℓ} {site : Site κ σ ℓ}

/-- Each call leaves a past that goes step by step. -/
theorem Orderly.descends_make (orderly : Orderly setup site)
    (descends : site.world.Descends setup.interpreter site.registry.Home) (call : Call κ σ ℓ) :
    (site.make setup call).world.Descends setup.interpreter (site.make setup call).registry.Home := by
  cases call with
  | build entry =>
    obtain ⟨grows, _⟩ := build_yields setup site entry orderly.stocked
    exact descends.mono fun e record => (grows.sameHomes.home_iff).mpr
  | link n =>
    rcases link_cases setup site n with same | ⟨g, links, member, ran, made⟩
    · rwa [same]
    rw [made]
    obtain ⟨joined, _⟩ := Links.joined_of_link orderly.linkage (orderly.graphs g member) ran
    obtain ⟨_, extends_, _⟩ := Links.housed_of_link orderly.housed orderly.stocked ran
    have lasting := Registry.Joined.lasting joined fun m member => (Links.mem_pending.mp member).2
    have reserved := descends.lineage.reserved _ orderly.present
    refine (descends.mono ?_).become fun past _ => .link extends_.grows
      (Links.laid_of_link reserved orderly.housed orderly.stocked ran)
      (fun e environment known new => ?_) extends_.intact
    · rintro e record ⟨m, home⟩
      exact ⟨m, lasting.homes m e record home⟩
    · obtain ⟨m, i, lives, kind, opens⟩ := Links.opened_of_link orderly.stocked ran e environment known
        (Array.getElem?_eq_none_iff.mp new)
      exact ⟨i.record, ⟨m, i, lives.known, lives.home, rfl⟩, kind, opens⟩
  | evaluate n =>
    rcases evaluate_cases setup site n with same | ⟨l, outcome, machine, member, ran, made⟩
    · rwa [same]
    obtain ⟨order, stop, after, _, followed⟩ :=
      orderly.follows member (site.engine.traversals + 1)
    rw [ran] at followed
    have world : machine.world = _ := followed.world
    have descends : machine.world.Descends setup.interpreter site.registry.Home := by
      rw [world]
      exact (Machine.goes_runSearch stop order site.world).descends descends
    rw [made]
    cases outcome with
    | none => exact descends
    | some result =>
      have homes := ((orderly.evaluated member ran).advanced result rfl).same.sameHomes
      exact descends.mono fun e record => homes.home_iff.mpr
  | act program =>
    exact (World.passes_run World.passing_goes (World.passes_ofDepth World.passing_goes
      setup.interpreter.embedder setup.interpreter.depth) program site.world).descends descends
  | restock source => exact descends

/-- Every past goes step by step. -/
theorem descends_of_run (setup : Setup κ σ ℓ) (memo : σ) (source : ℓ) (calls : List (Call κ σ ℓ)) :
    ((start memo source).run setup calls).world.Descends setup.interpreter
      ((start memo source).run setup calls).registry.Home := by
  induction calls using List.reverseRecOn with
  | nil => exact .start memo
  | append_singleton calls call ih =>
    rw [run, List.foldl_append]
    exact (Orderly.of_run setup memo source calls).descends_make ih call

section Past

variable {s : Store κ} {e : EnvironmentId} {environment : Environment}

/-- Environments have the kinds of their modules at every moment. -/
theorem Orderly.kinds (orderly : Orderly setup site) (told : s ∈ site.world.past.events)
    {record : Record κ} (home : site.registry.Home e record)
    (present : s.environment? e = some environment) : environment.kind = record.kind :=
  ((orderly.past s told).1.houses e record environment home present).kind

/-- Slots hold what is in place for them at every moment. -/
theorem Orderly.fitting (orderly : Orderly setup site)
    (descends : site.world.Descends setup.interpreter site.registry.Home)
    (told : s ∈ site.world.past.events) : s.Fitting :=
  descends.lineage.fitting (fun _ told _ _ _ => orderly.kinds told) s told

end Past

/-! ## Modules that are run -/

/-- The evaluation of a linked graph comes to run a module, the first one of `way`, in the
machine `moment`. -/
def Enters (setup : Setup κ σ ℓ) (site : Site κ σ ℓ) (n : Nat) (way : List ModuleId)
    (moment : Machine κ σ) : Prop :=
  ∃ l, site.linked[n]? = some l ∧ Machine.Enters setup.interpreter (site.engine.traversals + 1)
    (site.registry.size + 1) l.graph.entry ⟨site.registry, site.world⟩ way moment

variable {n : Nat} {way : List ModuleId} {moment : Machine κ σ}

/-- A call leaves the world that its traversal leaves. -/
theorem world_evaluate {l : LinkedGraph} (named : site.linked[n]? = some l) :
    (site.make setup (.evaluate n)).world = (Machine.evaluate setup.interpreter
      (site.engine.traversals + 1) l.graph.entry ⟨site.registry, site.world⟩).2.world := by
  rcases ran : Machine.evaluate setup.interpreter (site.engine.traversals + 1) l.graph.entry
    ⟨site.registry, site.world⟩ with ⟨_ | _, _⟩ <;> rw [Orderly.make_evaluate named ran]

/-- What the module does is part of what the call does. -/
theorem Enters.arrives (enters : site.Enters setup n way moment) (orderly : Orderly setup site) :
    ∃ l ∈ site.linked, Machine.Arrives setup.interpreter site.registry (site.engine.traversals + 1)
        [] l.graph.entry ⟨site.registry, site.world⟩ way moment ∧
      ∀ x, way.head? = some x → World.Goes setup.interpreter site.registry.Home
        (Machine.execute setup.interpreter x moment).2.world
        (site.make setup (.evaluate n)).world := by
  obtain ⟨l, named, enters⟩ := enters
  have descends := Registry.Descends.start site.registry (site.engine.traversals + 1)
  refine ⟨l, List.mem_of_getElem? named, enters.arrives orderly.linkage orderly.settled descends
    (by simp) (by simp), fun x top => ?_⟩
  rw [world_evaluate named, Machine.evaluate_apply]
  exact enters.since orderly.linkage orderly.settled descends (by simp) (by simp) top

/-- A call comes to run every module that it enters. -/
theorem Orderly.exists_enters (orderly : Orderly setup site) {l : LinkedGraph}
    (named : site.linked[n]? = some l) {entering : Entering κ}
    (before : entering ∉ site.registry.entered.events)
    (after : entering ∈ (Machine.evaluate setup.interpreter (site.engine.traversals + 1) l.graph.entry
      ⟨site.registry, site.world⟩).2.registry.entered.events) :
    ∃ way moment, site.Enters setup n (entering.module :: way) moment := by
  rw [Machine.evaluate_apply] at after
  obtain ⟨way, moment, enters⟩ := Machine.exists_enters orderly.linkage orderly.settled
    (.start _ _) (orderly.linked l (List.mem_of_getElem? named)) (by simp) (by simp) before after
  exact ⟨way, moment, l, named, enters⟩

section Runs

variable {x : ModuleId} {rest : List ModuleId} {i : Instance κ} {e : EnvironmentId} {w : World κ σ}

/-- What the run of a module does is part of what the call does. -/
theorem Enters.runs (enters : site.Enters setup n (x :: rest) moment) (orderly : Orderly setup site)
    (known : site.registry.get? x = some i) (home : i.environment = some e) :
    World.Goes setup.interpreter site.registry.Home site.world moment.world ∧
      World.Goes setup.interpreter site.registry.Home
        (World.runModule setup.interpreter e i.record moment.world).2
        (site.make setup (.evaluate n)).world := by
  obtain ⟨l, _, arrives, onward⟩ := enters.arrives orderly
  obtain ⟨seen, descends⟩ := arrives.descends
  obtain ⟨_, done, here, _⟩ := descends.under
  refine ⟨arrives.goes, ?_⟩
  have later := onward x rfl
  change World.Goes setup.interpreter site.registry.Home
    (Machine.execute setup.interpreter x ⟨moment.registry, moment.world⟩).2.world _ at later
  rwa [Machine.execute_at here (arrives.linked x rfl),
    Machine.program_eq setup.interpreter known home] at later

/-- So is what the body of a script module does. -/
theorem Enters.begins (enters : site.Enters setup n (x :: rest) moment) (orderly : Orderly setup site)
    (known : site.registry.get? x = some i) (home : i.environment = some e) (script : i.kind = .script)
    (ran : World.prepare e moment.world = (some (.ok ()), w)) :
    World.Goes setup.interpreter site.registry.Home site.world moment.world ∧
      World.Goes setup.interpreter site.registry.Home w (site.make setup (.evaluate n)).world := by
  obtain ⟨before, after⟩ := enters.runs orderly known home
  refine ⟨before, ?_⟩
  cases shape : i.record.body with
  | binary body =>
    rw [Instance.kind, Record.kind, shape] at script
    cases script
  | script code =>
    have body : World.Goes setup.interpreter site.registry.Home w _ :=
      World.goes_body setup.interpreter shape ran
    exact body.trans after

end Runs

end Site
end MixedModules
