import MixedModules.Proofs.Evaluation.Keeping
import MixedModules.Proofs.History.Equipping
import MixedModules.Proofs.History.Identity

/-! The exports of a binary module appear all at once and never change.

A binary module publishes its exports in one step, which is the last one of its instantiation.
A module that has not come so far, or that has failed on the way, has nothing at its exports,
and between two calls these are the modules that are not completed. -/
namespace MixedModules

variable {κ σ ℓ : Type}

/-! ## What is not published yet -/

/-- A module, if it is linked, has nothing at the exports that it publishes. -/
def Registry.Withholds (r : Registry κ) (s : Store κ) (m : ModuleId) : Prop :=
  ∀ e record environment, r.HomeOf m e record → s.environment? e = some environment →
    ∀ slot ∈ environment.published, ∀ value, s.readSlot slot ≠ .ok value

namespace Registry

variable {r r' : Registry κ} {s s' : Store κ} {m : ModuleId}

theorem Waits.withholds (waits : r.Waits s m) : r.Withholds s m := by
  rintro e _ environment ⟨i, known, home, _⟩ present slot member value read
  obtain ⟨there, held, filled⟩ := Store.readSlot_eq_ok read
  have vacant := (waits i e known home environment present).2 slot (List.mem_append_right _ member)
    there held
  cases vacant.symm.trans filled

/-- What is filled elsewhere is not published. -/
theorem Withholds.fills {e : EnvironmentId} {names : List String} {slots : List SlotId}
    (withholds : r.Withholds s m) (reserved : s.Reserved) (fills : s.Fills e names slots s')
    (apart : ∀ e' record environment, r.HomeOf m e' record → s.environment? e' = some environment →
      ∀ slot ∈ environment.published, slot ∉ slots) : r.Withholds s' m := by
  intro e' record after home present slot member value read
  obtain ⟨before, there, same, _⟩ := fills.environments e' after present
  have member : slot ∈ before.published := by
    rw [same] at member
    exact member
  have kept := fills.slots slot
    (reserved.kept e' before slot there (List.mem_append_right _ member))
    (apart e' record before home there slot member)
  refine withholds e' record before home there slot member value ?_
  unfold Store.readSlot at read ⊢
  rwa [kept] at read

/-- Linking publishes nothing. -/
theorem Withholds.laid (withholds : r.Withholds s m) (reserved : s.Reserved) (laid : s.Laid s')
    (present : ∀ e record, r.HomeOf m e record → ∃ environment, s.environment? e = some environment) :
    r.Withholds s' m := by
  intro e record environment home now slot member value read
  obtain ⟨before, there⟩ := present e record home
  cases now.symm.trans (laid.environments e before there)
  obtain ⟨held, known⟩ := reserved.inside e environment slot there (List.mem_append_right _ member)
  refine withholds e record environment home there slot member value ?_
  unfold Store.readSlot at read ⊢
  rw [known]
  rwa [laid.slots slot held known] at read

theorem Withholds.homes (withholds : r.Withholds s m)
    (same : ∀ e record, r'.HomeOf m e record → r.HomeOf m e record) : r'.Withholds s m :=
  fun e record environment home present =>
    withholds e record environment (same e record home) present

end Registry

namespace Machine

/-- While modules that are registered in `r` are evaluated, those that are not run yet have
filled nothing, and those that are not completed have published nothing. -/
structure Guarded (r now : Registry κ) (s : Store κ) : Prop where
  tidy : Links.Tidy ⟨r, s⟩
  waits : ∀ m progress, now.progressOf? m = some progress →
    progress = .notStarted ∨ progress = .inProgress → r.Waits s m
  withholds : ∀ m, now.progressOf? m ≠ some .completed → r.Withholds s m

section Steps

variable {interpreter : Interpreter κ σ} {r now begun : Registry κ} {traversal : Nat}
  {m : ModuleId} {w w' : World κ σ}

/-- A module that is run has published nothing unless it has succeeded, and nothing of others. -/
theorem withholds_program (stocked : r.Stocked) (tidy : Links.Tidy ⟨r, w.store⟩)
    (linked : r.Linked m) (waits : r.Waits w.store m)
    {outcome : Option (Except EvalError Unit)} (ran : program interpreter r m w = (outcome, w'))
    {x : ModuleId} (withholds : r.Withholds w.store x) (other : x ≠ m ∨ outcome ≠ some (.ok ())) :
    r.Withholds w'.store x := by
  obtain ⟨i, known, held⟩ := linked
  obtain ⟨e, home⟩ := Option.isSome_iff_exists.mp held
  obtain ⟨environment, present, _⟩ := tidy.housed.present m i e known home
  obtain ⟨kind, distinct, once, vacant⟩ := ready_of_waits stocked tidy waits known home present
  rw [program_eq interpreter known home] at ran
  have shows : w.store.Shows e environment := ⟨environment.entities, present⟩
  by_cases same : x = m
  · subst same
    have captures : ∀ body, i.record.body = .binary body →
        w.store.Fills e (environment.entitled i.record) (environment.imports.values.map (·.own))
          w'.store := fun body shape =>
      World.fills_of_unfinished interpreter shape distinct once shows
        (vacant.mono (List.Subset.refl _) (List.subset_append_left _ _))
        (other.resolve_left (by simp)) ran
    cases shape : i.record.body with
    | script code =>
      have filling := World.fitted_runModule interpreter kind distinct once w shows vacant
      rw [ran] at filling
      refine withholds.fills tidy.reserved filling.fills ?_
      rintro e' _ there ⟨j, known', home', _⟩ present' slot member
      cases known.symm.trans known'
      cases home.symm.trans home'
      cases present.symm.trans present'
      simp [Environment.published, kind, Record.kind, shape] at member
    | binary body =>
      refine withholds.fills tidy.reserved (captures body shape) ?_
      rintro e' _ there ⟨j, known', home', _⟩ present' slot member captured
      cases known.symm.trans known'
      cases home.symm.trans home'
      cases present.symm.trans present'
      exact (List.nodup_append.mp once).2.2 slot captured slot member rfl
  · have filling := World.fitted_runModule interpreter kind distinct once w shows vacant
    rw [ran] at filling
    refine withholds.fills tidy.reserved filling.fills ?_
    rintro e' _ there ⟨j, known', home', _⟩ present' slot member mine
    have apart := tidy.reserved.own e' e there environment slot present' present
      (List.mem_append_right _ member) mine
    exact same (tidy.housed.apart x m j i e known' known (apart ▸ home') home)

/-- Nor have modules that are not run. -/
theorem withholds_runSearch {order : List (ModuleId × List ModuleId)} (stop : Option EvalError)
    (stocked : r.Stocked) (tidy : Links.Tidy ⟨r, w.store⟩) (distinct : (order.map (·.1)).Nodup)
    (linked : ∀ entry ∈ order, r.Linked entry.1)
    (waits : ∀ entry ∈ order, r.Waits w.store entry.1) {x : ModuleId} (outside : x ∉ order.map (·.1))
    (withholds : r.Withholds w.store x) :
    r.Withholds (runSearch interpreter r stop order w).2.2.store x := by
  induction order generalizing w with
  | nil => exact withholds
  | cons entry rest ih =>
    obtain ⟨fresh, distinct⟩ := List.nodup_cons.mp distinct
    obtain ⟨other, outside⟩ := not_or.mp (List.mem_cons.not.mp outside)
    obtain ⟨_, tidy', others⟩ := filling_program interpreter stocked tidy
      (linked entry List.mem_cons_self) (waits entry List.mem_cons_self)
    unfold runSearch at ih ⊢
    simp only [runInOrder]
    rcases ran : program interpreter r entry.1 w with ⟨_ | _ | _, w'⟩ <;> rw [ran] at tidy' others
    all_goals
      have kept := withholds_program stocked tidy (linked entry List.mem_cons_self)
        (waits entry List.mem_cons_self) ran withholds (.inl other)
    · exact kept
    · exact kept
    · refine ih tidy' distinct (fun y member => linked y (List.mem_cons_of_mem _ member))
        (fun y member => others y.1 (fun same => ?_) (waits y (List.mem_cons_of_mem _ member))) outside
        kept
      exact fresh (List.mem_map.mpr ⟨y, member, same⟩)

/-- Each step of a traversal leaves it so. -/
theorem keeps_guarded (linkage : r.Linkage) (settled : r.Settled) (stocked : r.Stocked) :
    Keeps interpreter r traversal fun now (w : World κ σ) => Guarded r now w.store where
  begins {path seen now begun w m i} descends begins guarded := by
    obtain ⟨_, done, here, _⟩ := descends.under
    obtain ⟨j, _, _, _, rfl, _⟩ := begins_cases linkage settled here begins
    have waited : now.progressOf? m = some .notStarted := by
      cases begins with
      | root known | inner known => exact Registry.progressOf?_eq_some_iff.mpr ⟨_, known, rfl⟩
    refine ⟨guarded.tidy, fun x progress held open_ => ?_, fun x unfinished => guarded.withholds x ?_⟩
    · rw [progressOf?_begins begins] at held
      split at held
      · next same => exact same ▸ guarded.waits m _ waited (.inl rfl)
      · exact guarded.waits x progress held open_
    · rw [progressOf?_begins begins] at unfinished
      split at unfinished
      · next same =>
        rw [← same, waited]
        simp
      · exact unfinished
  runs {path seen now w w' m result} descends guarded ran root := by
    obtain ⟨_, done, here, sound, _⟩ := descends.under
    have linked := (sound.fresh m (.inl List.mem_cons_self)).1
    have running : now.progressOf? m = some .inProgress :=
      (here.inProgress_iff sound settled).mpr List.mem_cons_self
    have waits := guarded.waits m _ running (.inr rfl)
    obtain ⟨_, tidy, others⟩ := filling_program interpreter stocked guarded.tidy linked waits
    rw [ran] at tidy others
    refine ⟨tidy, fun x progress held open_ => ?_, fun x unfinished => ?_⟩
    · obtain ⟨other, before⟩ := Registry.open_of_leaving held open_
      exact others x other (guarded.waits x progress before open_)
    · have before : now.progressOf? x ≠ some .completed ∧ (x ≠ m ∨ some result ≠ some (.ok ())) := by
        cases result with
        | ok _ =>
          refine ⟨fun completed => unfinished (Registry.completed_leaving_ok (.inl completed)), ?_⟩
          refine .inl fun same => unfinished (Registry.completed_leaving_ok (.inr ⟨same, ?_⟩))
          obtain ⟨i, known, _⟩ := Registry.progressOf?_eq_some_iff.mp running
          exact ⟨i, known⟩
        | error e =>
          refine ⟨fun completed => unfinished (Registry.completed_leaving_error completed ?_),
            .inr (by simp)⟩
          rintro rfl
          cases running.symm.trans completed
      exact withholds_program stocked guarded.tidy linked waits ran (guarded.withholds x before.1)
        before.2
  fails {now w m e} running guarded root := by
    refine ⟨guarded.tidy, fun x progress held open_ => ?_, fun x unfinished => guarded.withholds x ?_⟩
    · exact guarded.waits x progress (Registry.open_of_leaving held open_).2 open_
    · intro completed
      refine unfinished (Registry.completed_leaving_error completed ?_)
      rintro rfl
      cases running.symm.trans completed

end Steps
end Machine

/-! ## Between two calls -/

namespace Site

variable {setup : Setup κ σ ℓ} {site : Site κ σ ℓ}

/-- A module that is not completed has published nothing. -/
def Sealed (site : Site κ σ ℓ) : Prop :=
  ∀ m, site.registry.progressOf? m ≠ some .completed → site.registry.Withholds site.world.store m

/-- A module that has failed has published nothing. -/
def Spent (site : Site κ σ ℓ) : Prop :=
  ∀ m reason, site.registry.progressOf? m = some (.errored reason) →
    site.registry.Withholds site.world.store m

namespace Sealed

theorem spent (published : site.Sealed) : site.Spent := fun m reason failed =>
  published m (by simp [failed])

theorem start (memo : σ) (source : ℓ) : (start memo source : Site κ σ ℓ).Sealed := by
  rintro m _ e record environment ⟨_, known, _⟩
  cases known

theorem act (durable : site.Durable) (published : site.Sealed) (program : Program κ σ Unit) :
    (site.make setup (.act program)).Sealed := by
  have fills : site.world.store.Fills ⟨0⟩ [] [] (site.make setup (.act program)).world.store :=
    (World.through_run (Store.respected_fills ⟨0⟩)
      (World.through_ofDepth (Store.respected_fills ⟨0⟩) setup.interpreter.embedder
        setup.interpreter.depth) program site.world).present
  exact fun m unfinished =>
    (published m unfinished).fills durable.tidy.reserved fills fun _ _ _ _ _ _ _ => by simp

theorem build (orderly : Orderly setup site) (published : site.Sealed) (entry : String) :
    (site.make setup (.build entry)).Sealed := by
  obtain ⟨grows, _, _⟩ := Orderly.build_yields setup site entry orderly.stocked
  exact fun m unfinished => (published m fun completed =>
    unfinished (grows.progressOf?_of_some completed)).homes fun e record =>
      (grows.sameHomes.homes m e record).mp

theorem link (orderly : Orderly setup site) (durable : site.Durable) (published : site.Sealed)
    (n : Nat) : (site.make setup (.link n)).Sealed := by
  rcases Orderly.link_cases setup site n with same | ⟨g, links, member, ran, made⟩
  · rwa [same]
  rw [made]
  have faithful := orderly.graphs g member
  obtain ⟨joined, _⟩ := Links.joined_of_link orderly.linkage faithful ran
  obtain ⟨_, _, waits⟩ := durable.tidy.link orderly.stocked orderly.linkage faithful ran
  have laid := Links.laid_of_link durable.tidy.reserved durable.tidy.housed orderly.stocked ran
  intro m unfinished
  by_cases pending : m ∈ Links.pending ⟨site.registry, site.world.store⟩ g
  · exact (waits m (.inl pending)).withholds
  · refine Registry.Withholds.homes ((published m fun completed => unfinished ?_).laid
      durable.tidy.reserved laid fun e record home => ?_) fun e record home => ?_
    · exact joined.reassigned.progressOf?.trans completed
    · obtain ⟨i, known, home, _⟩ := home
      obtain ⟨environment, present, _⟩ := durable.tidy.housed.present m i e known home
      exact ⟨environment, present⟩
    · obtain ⟨i, known, rest⟩ := home
      exact ⟨i, (joined.kept m pending).symm.trans known, rest⟩

/-- An evaluation publishes the exports of modules that it completes, and if it never returns
it still does not publish those of modules that had failed before. -/
theorem evaluate (orderly : Orderly setup site) (durable : site.Durable) (waiting : site.Waiting)
    (published : site.Sealed) (n : Nat) :
    (site.Answers setup (.evaluate n) → (site.make setup (.evaluate n)).Sealed) ∧
      (site.make setup (.evaluate n)).Spent := by
  rcases evaluate_answers setup site n with same | ⟨l, outcome, machine, member, ran, ends, made⟩
  · rw [same]
    exact ⟨fun _ => published, published.spent⟩
  have linked := orderly.linked l member
  rw [made]
  cases outcome with
  | none =>
    refine ⟨fun answers => absurd rfl (ends answers), fun m reason failed => ?_⟩
    obtain ⟨order, stop, after, search, followed⟩ :=
      orderly.follows member (site.engine.traversals + 1)
    rw [ran] at followed
    obtain ⟨distinct, fresh⟩ := search.fresh
    have inside := search.stays (fun m target held => (orderly.linkage.closed m held).2 target)
      (by simpa using linked)
    have outside : m ∉ order.map (·.1) := fun among => by
      obtain ⟨entry, held, rfl⟩ := List.mem_map.mp among
      cases failed.symm.trans (fresh entry held).2.2
    have world : machine.world = _ := followed.world
    change site.registry.Withholds machine.world.store m
    rw [world]
    exact Machine.withholds_runSearch stop orderly.stocked durable.tidy distinct inside
      (fun entry held => waiting entry.1 (fresh entry held).2.2) outside
      (published.spent m reason failed)
  | some result =>
    have homes := ((orderly.evaluated member ran).advanced result rfl).same.sameHomes
    have start : Machine.Guarded site.registry site.registry site.world.store := by
      refine ⟨durable.tidy, fun m progress held unspent => waiting m ?_, published⟩
      rcases unspent with rfl | rfl
      · exact held
      · exact absurd held (orderly.settled.idle m)
    rw [Machine.evaluate_apply] at ran
    have guarded := (Machine.keeps_guarded orderly.linkage orderly.settled orderly.stocked).holds
      orderly.linkage orderly.settled (.start _ _) linked (by simp) (by simp) start ran
    have kept : Sealed ⟨⟨machine.registry, site.engine.traversals + 1⟩, machine.world, site.source,
        site.graphs, site.linked⟩ := fun m unfinished =>
      (guarded.withholds m unfinished).homes fun e record => (homes.homes m e record).mp
    exact ⟨fun _ => kept, kept.spent⟩

/-- Each call that comes to an end leaves the exports of completed modules only. -/
theorem make (orderly : Orderly setup site) (durable : site.Durable) (waiting : site.Waiting)
    (published : site.Sealed) (call : Call κ σ ℓ) :
    (site.Answers setup call → (site.make setup call).Sealed) ∧ (site.make setup call).Spent := by
  cases call with
  | build entry =>
    have kept := published.build orderly entry
    exact ⟨fun _ => kept, kept.spent⟩
  | link n =>
    have kept := published.link orderly durable n
    exact ⟨fun _ => kept, kept.spent⟩
  | evaluate n => exact published.evaluate orderly durable waiting n
  | act program =>
    have kept : (site.make setup (.act program)).Sealed := published.act durable program
    exact ⟨fun _ => kept, kept.spent⟩
  | restock source => exact ⟨fun _ => published, published.spent⟩

/-- So it is in every history that can happen, between two calls and at its end. -/
theorem run {calls : List (Call κ σ ℓ)} (orderly : Orderly setup site) (durable : site.Durable)
    (waiting : site.Waiting) (published : site.Sealed) (returns : Returns setup site calls) :
    (site.run setup calls).Spent ∧ ∀ last, Returns setup site (calls ++ [last]) →
      (site.run setup calls).Sealed := by
  induction calls generalizing site with
  | nil => exact ⟨published.spent, fun _ _ => published⟩
  | cons call rest ih =>
    obtain ⟨ended, later⟩ := returns
    obtain ⟨durable', waiting'⟩ := durable.make orderly waiting call
    obtain ⟨kept, spent⟩ := published.make orderly durable waiting call
    cases rest with
    | nil => exact ⟨spent, fun last more => kept (more.1 (by simp))⟩
    | cons next rest =>
      have answers := ended (by simp)
      obtain ⟨spent, between⟩ := ih (orderly.make call) durable' (waiting' answers) (kept answers) later
      exact ⟨spent, fun last more => between last more.2⟩

theorem of_returns {memo : σ} {source : ℓ} {calls : List (Call κ σ ℓ)}
    (returns : Returns setup (Site.start memo source) calls) :
    ((Site.start memo source).run setup calls).Spent ∧
      ∀ last, Returns setup (Site.start memo source) (calls ++ [last]) →
        ((Site.start memo source).run setup calls).Sealed := by
  obtain ⟨durable, waiting⟩ := durable_start setup memo source
  exact Sealed.run (.start memo source) durable waiting (.start memo source) returns

end Sealed

/-! ## The exports of a binary module -/

/-- How the exports of a binary module, which lives at `e`, appear in the history of `calls`. -/
structure Appears (setup : Setup κ σ ℓ) (start : Site κ σ ℓ) (calls : List (Call κ σ ℓ))
    (site : Site κ σ ℓ) (i : Instance κ) (e : EnvironmentId) : Prop where
  /-- At every moment none of the exports gives a value, or all of them are live. -/
  together : ∀ s ∈ site.world.past.events, ∀ environment, s.environment? e = some environment →
    (∀ name slot, environment.exports.get? name = some slot → ∀ value, s.readSlot slot ≠ .ok value) ∨
      ∀ name slot, environment.exports.get? name = some slot →
        ∃ held value, s.slot? slot = some held ∧ held.content = .live value
  /-- They are live from the moment on at which the module was instantiated. -/
  finished : ∀ s past, s :: past <:+ site.world.past.events → ∀ environment,
    s.environment? e = some environment → ∀ name slot, environment.exports.get? name = some slot →
      ((∃ value, s.readSlot slot = .ok value) ↔ ∃ events, events <:+ s :: past ∧
        World.Instantiated setup.interpreter.calls e i.record events)
  /-- When all calls have come to an end they are live if the module is completed. -/
  completed : (∀ last, Returns setup start (calls ++ [last])) → ∀ environment,
    site.world.store.environment? e = some environment → ∀ name slot,
      environment.exports.get? name = some slot →
        ((∃ value, site.world.store.readSlot slot = .ok value) ↔ i.progress = .completed)
  failed : ∀ reason, i.progress = .errored reason → ∀ s ∈ site.world.past.events, ∀ environment,
    s.environment? e = some environment → ∀ name slot, environment.exports.get? name = some slot →
      ∀ value, s.readSlot slot ≠ .ok value
  /-- What an export gives is what it gives for ever. -/
  lasts : ∀ later s past, later ++ s :: past = site.world.past.events → ∀ environment,
    s.environment? e = some environment → ∀ name slot, environment.exports.get? name = some slot →
      ∀ value, s.readSlot slot = .ok value → ∀ s' ∈ later, s'.readSlot slot = .ok value ∧
        ∃ after, s'.environment? e = some after ∧ after.exports = environment.exports
  /-- It is the handle of the entity, or of the observed import, that the export names. -/
  entity : ∀ s ∈ site.world.past.events, ∀ environment, s.environment? e = some environment →
    ∀ name slot, environment.exports.get? name = some slot → ∀ value, s.readSlot slot = .ok value →
      value.bindingKind ≠ .value ∧ ∃ decl ∈ i.record.exports, decl.name = name ∧ ∃ inner,
        (decl.source = .own inner ∨ decl.source = .observed inner) ∧
          s.readEntity e inner = .ok value
  /-- In the next evaluation none is refused after others were given: once the module has done what
  comes before its exports, it gives all of them and succeeds. -/
  unbroken : ∀ m n rest moment body w, site.registry.get? m = some i →
    site.Enters setup n (m :: rest) moment → i.record.body = .binary body →
      World.furnish setup.interpreter.calls e body moment.world = (some (.ok ()), w) →
        ∃ s, Store.publishAll e i.record.exports w.store = .ok ((), s) ∧
          World.runModule setup.interpreter e i.record moment.world =
            (some (.ok ()), w.become s)

section Appears

variable {m : ModuleId} {i : Instance κ} {e : EnvironmentId} {environment : Environment}
  {s : Store κ} {past events : List (Store κ)} {name : String} {slot : SlotId}

/-- Exports of a binary module are published, and each of them is the entity of a name. -/
theorem Orderly.export_published (orderly : Orderly setup site)
    (known : site.registry.get? m = some i) (home : i.environment = some e)
    (binary : i.kind = .binary) (told : s ∈ site.world.past.events)
    (present : s.environment? e = some environment)
    (given : environment.exports.get? name = some slot) : slot ∈ environment.published ∧
      ∃ decl ∈ i.record.exports, decl.name = name ∧ ∃ inner,
        decl.source = .own inner ∨ decl.source = .observed inner := by
  have houses := (orderly.past s told).1.houses e i.record environment ⟨m, i, known, home, rfl⟩ present
  obtain ⟨decl, declared, named, _⟩ := houses.exports name slot given
  refine ⟨?_, decl, declared, named, ?_⟩
  · rw [Environment.published_of_binary (houses.kind.trans binary)]
    exact Store.mem_values_of_get? given
  · have fits := Record.wellFormed_of_validate (orderly.stocked.checked m i known)
    cases shape : i.record.body with
    | script code => simp [Instance.kind, Record.kind, shape] at binary
    | binary body =>
      have checked := (fits.binary body shape).exports decl declared
      cases source : decl.source with
      | own inner => exact ⟨inner, .inl rfl⟩
      | observed inner => exact ⟨inner, .inr rfl⟩
      | declaration | indirect => simp [Record.BinaryExportFits, source] at checked

/-- Since a binary module has published its exports they give the entities that they name. -/
theorem Durable.gives_of_publishes (orderly : Orderly setup site) (durable : site.Durable)
    {s₀ s₁ : Store κ} (known : site.registry.get? m = some i) (home : i.environment = some e)
    (binary : i.kind = .binary) (publishes : s₀.Publishes e i.record s₁)
    (before : s₀ ∈ site.world.past.events) (fixes : s₁.Fixes s) (told : s ∈ site.world.past.events)
    (present : s.environment? e = some environment)
    (given : environment.exports.get? name = some slot) :
    ∃ value, s.readSlot slot = .ok value ∧ ∃ decl ∈ i.record.exports, decl.name = name ∧ ∃ inner,
      (decl.source = .own inner ∨ decl.source = .observed inner) ∧
        s.readEntity e inner = .ok value := by
  obtain ⟨_, decl, declared, rfl, inner, source⟩ :=
    orderly.export_published known home binary told present given
  obtain ⟨there, slot', value, present', given', _, entity, read⟩ :=
    durable.published_at orderly known home binary publishes before fixes told declared source
  cases present.symm.trans present'
  cases given.symm.trans given'
  exact ⟨value, read, decl, declared, rfl, inner, source, entity⟩

/-- So it is since the module was instantiated. -/
theorem Durable.gives_of_instantiated (orderly : Orderly setup site) (durable : site.Durable)
    (known : site.registry.get? m = some i) (home : i.environment = some e)
    (binary : i.kind = .binary) (onward : s :: past <:+ site.world.past.events)
    (since : events <:+ s :: past)
    (instantiated : World.Instantiated setup.interpreter.calls e i.record events)
    (present : s.environment? e = some environment)
    (given : environment.exports.get? name = some slot) :
    ∃ value, s.readSlot slot = .ok value ∧ ∃ decl ∈ i.record.exports, decl.name = name ∧ ∃ inner,
      (decl.source = .own inner ∨ decl.source = .observed inner) ∧
        s.readEntity e inner = .ok value := by
  obtain ⟨later, s₀, s₁, earlier, publishes, rfl⟩ := instantiated.published
  have fixes : s₁.Fixes s :=
    durable.ordered.onward Store.respected_fixes onward (since.subset (by simp))
  exact durable.gives_of_publishes orderly known home binary publishes
    (onward.subset (since.subset (by simp))) fixes (onward.subset List.mem_cons_self) present given

/-- If an export gives a value, the module was instantiated. -/
theorem Orderly.instantiated_of_reads (orderly : Orderly setup site)
    (descends : site.world.Descends setup.interpreter site.registry.Home)
    (known : site.registry.get? m = some i) (home : i.environment = some e)
    (binary : i.kind = .binary) (onward : s :: past <:+ site.world.past.events)
    (present : s.environment? e = some environment)
    (given : environment.exports.get? name = some slot) {value : Value}
    (read : s.readSlot slot = .ok value) : ∃ events, events <:+ s :: past ∧
      World.Instantiated setup.interpreter.calls e i.record events := by
  obtain ⟨published, _⟩ := orderly.export_published known home binary
    (onward.subset List.mem_cons_self) present given
  obtain ⟨record, events, there, since, instantiated⟩ :=
    (descends.lineage.suffix onward (by simp)).instantiated
      (fun s' told _ _ _ => orderly.kinds (onward.subset told)) present published read
  exact ⟨events, since, orderly.housed.unique known home there ▸ instantiated⟩

/-- Whatever happens to an engine, the exports of a binary module appear all at once, when its
instantiation has succeeded, and never change. -/
theorem exports_appear (setup : Setup κ σ ℓ) (memo : σ) (source : ℓ) {calls : List (Call κ σ ℓ)}
    (returns : Returns setup (start memo source) calls)
    (history : site = (start memo source).run setup calls)
    (known : site.registry.get? m = some i) (home : i.environment = some e)
    (binary : i.kind = .binary) : Appears setup (start memo source) calls site i e := by
  have orderly : Orderly setup site := history ▸ Orderly.of_run setup memo source calls
  have durable : site.Durable := history ▸ Durable.of_returns returns
  have descends : site.world.Descends setup.interpreter site.registry.Home :=
    history ▸ descends_of_run setup memo source calls
  obtain ⟨spent, between⟩ : site.Spent ∧ ∀ last, Returns setup (start memo source) (calls ++ [last]) →
      site.Sealed := history ▸ Sealed.of_returns returns
  have reserved := descends.lineage.reserved
  have published {s environment} (told : s ∈ site.world.past.events)
      (present : s.environment? e = some environment) {name slot}
      (given : environment.exports.get? name = some slot) : slot ∈ environment.published :=
    (orderly.export_published known home binary told present given).1
  have reads {s past environment} (onward : s :: past <:+ site.world.past.events)
      (present : s.environment? e = some environment) {name slot}
      (given : environment.exports.get? name = some slot) {value}
      (read : s.readSlot slot = .ok value) :=
    orderly.instantiated_of_reads descends known home binary onward present given read
  have lasts : ∀ later s past, later ++ s :: past = site.world.past.events → ∀ environment,
      s.environment? e = some environment → ∀ name slot, environment.exports.get? name = some slot →
        ∀ value, s.readSlot slot = .ok value → ∀ s' ∈ later, s'.readSlot slot = .ok value ∧
          ∃ after, s'.environment? e = some after ∧ after.exports = environment.exports := by
    intro later s past whole environment present name slot given value read s' since
    have told : s ∈ site.world.past.events := by simp [← whole]
    have fixes : s.Fixes s' := by
      have steps := durable.ordered.steps
      rw [← whole] at steps
      exact (List.pairwise_append.mp steps).2.2 s' since s List.mem_cons_self
    obtain ⟨entities, kept⟩ := fixes.grows.environments e environment present
    refine ⟨fixes.readSlot ?_ read, _, kept, rfl⟩
    exact (reserved s told).kept e environment slot present
      (List.mem_append_right _ (published told present given))
  constructor
  case lasts => exact lasts
  case together =>
    intro s told environment present
    obtain ⟨later, past, whole⟩ := List.append_of_mem told
    have onward : s :: past <:+ site.world.past.events := ⟨later, whole.symm⟩
    refine or_iff_not_imp_left.mpr fun some name slot given => ?_
    push Not at some
    obtain ⟨name', slot', given', value', read'⟩ := some
    obtain ⟨events, since, instantiated⟩ := reads onward present given' read'
    obtain ⟨value, read, _⟩ := durable.gives_of_instantiated orderly known home binary onward since
      instantiated present given
    obtain ⟨held, there, filled⟩ := Store.readSlot_eq_ok read
    have member := published told present given
    have fit := orderly.fitting descends told e environment present slot
      (List.mem_append_right _ (List.mem_append_right _ member)) held there
    rcases fit.of_published (reserved s told) present member with vacant | ⟨value, live⟩
    · rw [Slot.value?, vacant] at filled
      cases filled
    · exact ⟨held, value, there, live⟩
  case finished =>
    intro s past onward environment present name slot given
    constructor
    · rintro ⟨value, read⟩
      exact reads onward present given read
    · rintro ⟨events, since, instantiated⟩
      obtain ⟨value, read, _⟩ := durable.gives_of_instantiated orderly known home binary onward since
        instantiated present given
      exact ⟨value, read⟩
  case completed =>
    intro ended environment present name slot given
    constructor
    · rintro ⟨value, read⟩
      by_contra unfinished
      have open_ : site.registry.progressOf? m ≠ some .completed := fun completed => by
        obtain ⟨j, known', ended⟩ := Registry.progressOf?_eq_some_iff.mp completed
        cases known.symm.trans known'
        exact unfinished ended
      exact between (.restock source) (ended _) m open_ e i.record environment ⟨i, known, home, rfl⟩
        present slot (published orderly.present present given) value read
    · intro completed
      obtain ⟨_, s₀, s₁, later, past, publishes, rfl, events⟩ :=
        (durable.finished m i e known completed home).published binary
      have fixes := durable.ordered.present Store.respected_fixes (s := s₁) (by simp [events])
      obtain ⟨value, read, _⟩ := durable.gives_of_publishes orderly known home binary publishes
        (by simp [events]) fixes orderly.present present given
      exact ⟨value, read⟩
  case failed =>
    intro reason failed s told environment present name slot given value read
    have fixes := durable.ordered.present Store.respected_fixes told
    obtain ⟨entities, kept⟩ := fixes.grows.environments e environment present
    have member := published told present given
    have apart := (reserved s told).kept e environment slot present (List.mem_append_right _ member)
    exact spent m reason (Registry.progressOf?_eq_some_iff.mpr ⟨i, known, failed⟩) e i.record _
      ⟨i, known, home, rfl⟩ kept slot member value (fixes.readSlot apart read)
  case entity =>
    intro s told environment present name slot given value read
    obtain ⟨later, past, whole⟩ := List.append_of_mem told
    have onward : s :: past <:+ site.world.past.events := ⟨later, whole.symm⟩
    obtain ⟨events, since, instantiated⟩ := reads onward present given read
    obtain ⟨value', read', decl, declared, named, inner, source, entity⟩ :=
      durable.gives_of_instantiated orderly known home binary onward since instantiated present given
    cases read.symm.trans read'
    obtain ⟨there, known', held⟩ := Store.readEntity_eq_ok entity
    have houses := (orderly.past s told).1.houses e i.record there ⟨m, i, known, home, rfl⟩ known'
    obtain ⟨type, _, conforms⟩ := houses.entities inner value held
    exact ⟨conforms.handle, decl, declared, named, inner, source, entity⟩
  case unbroken =>
    intro m' n rest moment body w known' enters shape furnished
    have supplies : Links.Supplies ⟨site.registry, site.world.store⟩ :=
      history ▸ supplies_of_run setup memo source calls
    exact enters.publishes orderly descends supplies known' home shape furnished

end Appears
end Site

/-- When all modules of the sample are evaluated, the export of the owner is live with the global
that it names. -/
theorem Site.owner_appears : ∃ (site : Site Unit Unit Unit) (environment : Environment)
    (slot : SlotId) (value : Value), site = (Site.start () ()).run Sample.handing Sample.handed ∧
      site.world.store.environment? ⟨4⟩ = some environment ∧
      environment.exports.get? "g" = some slot ∧ site.world.store.readSlot slot = .ok value ∧
      site.world.store.readEntity ⟨4⟩ "g" = .ok value := by
  have known := Sample.instances_handed
  have orderly := Site.Orderly.of_run Sample.handing () () Sample.handed
  have ended : ∀ last, Site.Returns Sample.handing (Site.start () ()) (Sample.handed ++ [last]) :=
    fun _ => ⟨fun _ => trivial, fun _ => trivial, fun _ => by simp only [Site.Answers]; decide +kernel,
      fun _ => trivial, fun never => absurd rfl never, trivial⟩
  generalize history : (Site.start () ()).run Sample.handing Sample.handed = site at known orderly
  have owner : site.registry.get? ⟨4⟩ = some (Sample.standing "owner" Sample.owner [] 4 0) := by
    unfold Registry.get?
    rw [known]
    rfl
  have appears := Site.exports_appear Sample.handing () () Sample.returns_handed history.symm owner
    rfl rfl
  obtain ⟨environment, present, _⟩ := orderly.housed.present ⟨4⟩ _ ⟨4⟩ owner rfl
  have houses := orderly.housed.sound.houses ⟨4⟩ _ environment ⟨⟨4⟩, _, owner, rfl, rfl⟩ present
  obtain ⟨slot, given⟩ := houses.given _ List.mem_cons_self fun _ _ same => by cases same
  obtain ⟨value, read⟩ := (appears.completed ended environment present "g" slot given).mpr rfl
  obtain ⟨_, decl, declared, _, inner, source, entity⟩ :=
    appears.entity _ orderly.present environment present "g" slot given value read
  obtain rfl := List.mem_singleton.mp declared
  have named : inner = "g" := by rcases source with same | same <;> cases same; rfl
  exact ⟨site, environment, slot, value, rfl, present, given, read, named ▸ entity⟩

end MixedModules
