import MixedModules.Proofs.Link.Sharing
import MixedModules.Proofs.Registry.Supply

/-! Imports as the supply settles them.

Whether an import is granted, and which error it gives otherwise, can be told from the
records that are handed over and from how their specifiers resolve. It does not depend
on what else is registered, on the order in which modules were linked, nor on what has
run. -/
namespace MixedModules
open Relation

variable {κ : Type}

/-! ## What names stand for -/

/-- A binding that a name may stand for, with what its module declares of it. -/
structure Provision where
  owner : String
  ownerKind : ModuleKind
  name : String
  kind : BindingKind
  type : TypeSig

/-- What a name stands for: one binding, none, or more than one. -/
inductive Meaning where
  | nothing
  | one (p : Provision)
  | several

namespace Supply

variable {supply : Supply κ} {q q' start : String × String} {p p' : Provision}

/-- A re-export of a name leads on to the name that it takes over, and the stars of a
module that does not export the name itself lead to it in other modules. -/
inductive LeadsTo (supply : Supply κ) : String × String → String × String → Prop where
  | indirect {identity target name specifier inner : String} {record : Record κ}
      {decl : ExportDecl κ} (offered : supply.Offers identity record)
      (declared : decl ∈ record.exports) (named : decl.name = name)
      (source : decl.source = .indirect specifier inner)
      (resolves : supply.resolver specifier (some identity) = .ok target) :
      LeadsTo supply (identity, name) (target, inner)
  | star {identity target name specifier : String} {record : Record κ}
      (offered : supply.Offers identity record)
      (undeclared : ∀ decl ∈ record.exports, decl.name ≠ name) (passedOn : name ≠ defaultName)
      (listed : specifier ∈ record.stars)
      (resolves : supply.resolver specifier (some identity) = .ok target) :
      LeadsTo supply (identity, name) (target, name)

/-- A name that a module declares and does not take from another one. -/
inductive Declares (supply : Supply κ) : String × String → Provision → Prop where
  | own {identity : String} {record : Record κ} {decl : ExportDecl κ}
      (offered : supply.Offers identity record) (declared : decl ∈ record.exports)
      (own : ∀ specifier inner, decl.source ≠ .indirect specifier inner) :
      Declares supply (identity, decl.name)
        ⟨identity, record.kind, decl.binding record.kind, decl.kind, decl.type⟩

/-- A name stands for a binding, by itself or through others. -/
def Provides (supply : Supply κ) (start : String × String) (p : Provision) : Prop :=
  ∃ q, ReflTransGen supply.LeadsTo start q ∧ supply.Declares q p

theorem Offers.unique {identity : String} {record record' : Record κ}
    (offered : supply.Offers identity record) (offered' : supply.Offers identity record') :
    record = record' := by
  have same := offered.1.symm.trans offered'.1
  injection same

theorem Declares.unique (declares : supply.Declares q p) (declares' : supply.Declares q p') :
    p = p' := by
  obtain ⟨offered, declared, _⟩ := declares
  generalize asked : (_, _) = q at declares'
  obtain ⟨offered', declared', _⟩ := declares'
  obtain ⟨rfl, named⟩ := Prod.mk.inj asked
  cases offered.unique offered'
  rw [(Record.wellFormed_of_validate offered.2).export_unique declared declared' named]

/-- What a name stands for, by all bindings that it leads to. -/
inductive Means (supply : Supply κ) (start : String × String) : Meaning → Prop where
  | nothing (none : ∀ p, ¬ supply.Provides start p) : Means supply start .nothing
  | one {p : Provision} (provides : supply.Provides start p)
      (only : ∀ p', supply.Provides start p' → p' = p) : Means supply start (.one p)
  | several {p p' : Provision} (provides : supply.Provides start p)
      (provides' : supply.Provides start p') (different : p ≠ p') : Means supply start .several

theorem Means.unique {meaning meaning' : Meaning} (means : supply.Means start meaning)
    (means' : supply.Means start meaning') : meaning = meaning' := by
  cases means with
  | nothing none =>
    cases means' with
    | nothing => rfl
    | one provides => exact absurd provides (none _)
    | several provides => exact absurd provides (none _)
  | one provides only =>
    cases means' with
    | nothing none => exact absurd provides (none _)
    | one provides' => rw [only _ provides']
    | several provides' provides'' different =>
      exact absurd ((only _ provides').trans (only _ provides'').symm) different
  | several provides provides' different =>
    cases means' with
    | nothing none => exact absurd provides (none _)
    | one _ only => exact absurd ((only _ provides).trans (only _ provides').symm) different
    | several => rfl

/-! ## How imports are judged -/

/-- How an import is judged by what its name stands for. Between binary modules, what is
declared on both sides must agree. -/
def judgement (importer target : String) (kind : ModuleKind) (decl : ImportDecl) :
    Meaning → Except LinkError Unit
  | .nothing => .error (.unresolvedExport target decl.name importer)
  | .several => .error (.ambiguousExport target decl.name importer)
  | .one p =>
    if kind = .binary ∧ p.ownerKind = .binary then
      match checkLink decl.kind decl.type p.kind p.type with
      | .ok _ => .ok ()
      | .error reason => .error (.linkType ⟨importer, decl.localName, p.owner, reason⟩)
    else .ok ()

/-- How an import of a module is judged. -/
inductive Judges (supply : Supply κ) (importer : String) (decl : ImportDecl) :
    Except LinkError Unit → Prop where
  | mk {target : String} {record : Record κ} {meaning : Meaning}
      (offered : supply.Offers importer record)
      (resolves : supply.resolver decl.specifier (some importer) = .ok target)
      (means : supply.Means (target, decl.name) meaning) :
      Judges supply importer decl (judgement importer target record.kind decl meaning)

/-- An import is judged in one way. -/
theorem Judges.unique {importer : String} {decl : ImportDecl} {x x' : Except LinkError Unit}
    (judges : supply.Judges importer decl x) (judges' : supply.Judges importer decl x') : x = x' := by
  obtain ⟨offered, resolves, means⟩ := judges
  obtain ⟨offered', resolves', means'⟩ := judges'
  cases offered.unique offered'
  cases resolves.symm.trans resolves'
  cases means.unique means'
  rfl

/-- A row of imports is judged up to the first that is refused. -/
inductive JudgesAll (supply : Supply κ) : List (String × ImportDecl) → Except LinkError Unit → Prop where
  | done : JudgesAll supply [] (.ok ())
  | granted {ask : String × ImportDecl} {asks : List (String × ImportDecl)}
      {x : Except LinkError Unit} (first : supply.Judges ask.1 ask.2 (.ok ()))
      (rest : JudgesAll supply asks x) : JudgesAll supply (ask :: asks) x
  | refused {ask : String × ImportDecl} {asks : List (String × ImportDecl)} {e : LinkError}
      (first : supply.Judges ask.1 ask.2 (.error e)) : JudgesAll supply (ask :: asks) (.error e)

namespace JudgesAll

variable {asks more : List (String × ImportDecl)} {x x' : Except LinkError Unit}

theorem unique (judges : supply.JudgesAll asks x) (judges' : supply.JudgesAll asks x') : x = x' := by
  induction judges with
  | done =>
    cases judges'
    rfl
  | granted first _ ih =>
    cases judges' with
    | granted _ rest' => exact ih rest'
    | refused first' => cases first.unique first'
  | refused first =>
    cases judges' with
    | granted first' _ => cases first.unique first'
    | refused first' => exact first.unique first'

/-- Imports that are granted decide nothing. -/
theorem skip (granted : ∀ ask ∈ asks, supply.Judges ask.1 ask.2 (.ok ()))
    (rest : supply.JudgesAll more x) : supply.JudgesAll (asks ++ more) x := by
  induction asks with
  | nil => exact rest
  | cons ask asks ih =>
    exact .granted (granted ask List.mem_cons_self)
      (ih fun other member => granted other (List.mem_cons_of_mem _ member))

/-- What comes later may be judged over more imports, if it comes to the same. -/
theorem extend {more' : List (String × ImportDecl)} (judges : supply.JudgesAll (asks ++ more) x)
    (same : supply.JudgesAll more x → supply.JudgesAll more' x) :
    supply.JudgesAll (asks ++ more') x := by
  induction asks with
  | nil => exact same judges
  | cons ask asks ih =>
    cases judges with
    | granted first rest => exact .granted first (ih rest)
    | refused first => exact .refused first

/-- Where the imports of some modules are granted, the others decide. -/
theorem of_filter {α : Type} {f : α → List (String × ImportDecl)} (select : α → Bool) {xs : List α}
    (granted : ∀ a ∈ xs, select a = false → ∀ ask ∈ f a, supply.Judges ask.1 ask.2 (.ok ()))
    (judges : supply.JudgesAll ((xs.filter select).flatMap f) x) :
    supply.JudgesAll (xs.flatMap f) x := by
  induction xs with
  | nil => exact judges
  | cons a rest ih =>
    have later := ih fun other member => granted other (List.mem_cons_of_mem a member)
    cases chosen : select a with
    | true =>
      rw [List.filter_cons_of_pos chosen, List.flatMap_cons] at judges
      exact judges.extend later
    | false =>
      rw [List.filter_cons_of_neg (by simp [chosen])] at judges
      exact skip (granted a List.mem_cons_self chosen) (later judges)

end JudgesAll

/-- The imports of modules, in the order of the modules and of what they declare. -/
def imports (supply : Supply κ) (identities : List String) : List (String × ImportDecl) :=
  identities.flatMap fun identity => match supply.hand identity with
    | .record record => record.imports.map (identity, ·)
    | _ => []

/-- How linking a graph ends. A cycle of binary modules is refused, and otherwise the
imports of all its modules decide. -/
inductive Concludes (supply : Supply κ) (g : ModuleGraph) : Except LinkError Unit → Prop where
  | cyclic {cycle : List ModuleId} (found : g.binaryCycle? = some cycle) :
      Concludes supply g (.error (.binaryCycle (cycle.map g.identity)))
  | judged {x : Except LinkError Unit} (acyclic : g.binaryCycle? = none)
      (judges : supply.JudgesAll (supply.imports (g.nodes.map (·.identity))) x) :
      Concludes supply g x

theorem Concludes.unique {g : ModuleGraph} {x x' : Except LinkError Unit}
    (concludes : supply.Concludes g x) (concludes' : supply.Concludes g x') : x = x' := by
  cases concludes with
  | cyclic found =>
    cases concludes' with
    | cyclic found' =>
      cases found.symm.trans found'
      rfl
    | judged acyclic => cases found.symm.trans acyclic
  | judged acyclic judges =>
    cases concludes' with
    | cyclic found => cases acyclic.symm.trans found
    | judged _ judges' => exact judges.unique judges'

end Supply

/-! ## Links of what was supplied -/

theorem ModuleGraph.Faithful.identities {g : ModuleGraph} {r : Registry κ} (faithful : g.Faithful r) :
    g.nodes.map (·.identity) = g.modules.map r.identityOf := by
  rw [modules, List.map_map]
  refine List.map_congr_left fun n held => ?_
  obtain ⟨i, known, identity, _⟩ := faithful.drawn.shown n held
  rw [Function.comp_apply, Registry.identityOf_eq known, identity]

namespace Registry

variable {supply : Supply κ} {r r' : Registry κ}

theorem SuppliedBy.reassigned (supplied : r.SuppliedBy supply) (same : r.Reassigned r') :
    r'.SuppliedBy supply := by
  refine supplied.transfer (fun m i known => ?_) fun m i known => ?_
  · obtain ⟨environment, component, change⟩ := same m
    rw [known] at change
    obtain ⟨before, known', rfl⟩ := Option.map_eq_some_iff.mp change.symm
    exact ⟨before, known', rfl, rfl, rfl⟩
  · obtain ⟨environment, component, change⟩ := same m
    rw [known] at change
    exact ⟨_, change, rfl⟩

/-- A specifier of a module leads to the module that it resolves to. -/
theorem SuppliedBy.dependency? {m target : ModuleId} {i : Instance κ} {specifier : String}
    (supplied : r.SuppliedBy supply) (known : r.get? m = some i)
    (depends : i.dependency? specifier = some target) :
    ∃ j, r.get? target = some j ∧ supply.resolver specifier (some i.identity) = .ok j.identity := by
  cases resolved : i.dependencies with
  | none => simp [Instance.dependency?, resolved] at depends
  | some dependencies =>
    obtain ⟨d, found, rfl⟩ : ∃ d, dependencies.find? (fun d => d.1 = specifier) = some d ∧
        d.2 = target := by
      simpa [Instance.dependency?, resolved, Option.bind_eq_some_iff] using depends
    obtain ⟨j, there, resolves⟩ :=
      supplied.resolved m i dependencies known resolved d (List.mem_of_find?_eq_some found)
    have same : d.1 = specifier := by simpa using List.find?_some found
    exact ⟨j, there, same ▸ resolves⟩

end Registry

namespace Links

/-- Links of modules that were supplied, where linked modules have what they depend on. -/
structure Supplied (l : Links κ) (supply : Supply κ) : Prop where
  housed : l.Housed
  stocked : l.registry.Stocked
  closed : ∀ m, l.registry.Linked m → (∃ dependencies, l.registry.Resolved m dependencies) ∧
    ∀ target, l.registry.DependsOn m target → l.registry.Linked target
  supplied : l.registry.SuppliedBy supply
  shared : l.registry.Shared l.store

/-- A question by the identity of the module that is asked. -/
def asked (l : Links κ) (q : Registry.Question) : String × String := (l.registry.identityOf q.1, q.2)

/-- A slot is that of a binding, and a module owns it. -/
structure Holds (l : Links κ) (origin : ModuleId) (slot : SlotId) (p : Provision) : Prop where
  owner : ∃ i, l.registry.get? origin = some i ∧ i.identity = p.owner ∧ i.kind = p.ownerKind
  content : ∃ content, l.store.slot? slot = some content ∧ content.owner = p.owner ∧
    content.kind = p.kind ∧ content.type = p.type

namespace Supplied

variable {l : Links κ} {supply : Supply κ} {q q' : Registry.Question} {p p' : Provision}
  {slot slot' : SlotId} {m : ModuleId} {i : Instance κ}

section Questions

variable (links : l.Supplied supply)

include links

theorem ready : l.registry.Resolvable l.store l.registry.Linked :=
  links.housed.resolvable links.stocked links.closed

theorem offers (known : l.registry.get? m = some i) : supply.Offers i.identity i.record :=
  links.supplied.offers links.stocked known

theorem leadsTo (edge : l.registry.LeadsTo q q') : supply.LeadsTo (l.asked q) (l.asked q') := by
  cases edge with
  | indirect known declared named source resolved =>
    obtain ⟨j, there, resolves⟩ := links.supplied.dependency? known resolved
    simp only [asked, Registry.identityOf_eq known, Registry.identityOf_eq there]
    exact .indirect (links.offers known) declared named source resolves
  | star known undeclared passedOn listed resolved =>
    obtain ⟨j, there, resolves⟩ := links.supplied.dependency? known resolved
    simp only [asked, Registry.identityOf_eq known, Registry.identityOf_eq there]
    exact .star (links.offers known) undeclared passedOn listed resolves

/-- What a specifier of a linked module resolves to is linked under this identity. -/
theorem target_of_resolves {specifier target : String} (linked : l.registry.Linked m)
    (known : l.registry.get? m = some i) (requested : specifier ∈ i.record.requested)
    (resolves : supply.resolver specifier (some i.identity) = .ok target) :
    ∃ t j, i.dependency? specifier = some t ∧ l.registry.get? t = some j ∧ j.identity = target := by
  obtain ⟨t, depends, _⟩ := links.ready.closed m i linked known specifier requested
  obtain ⟨j, there, resolves'⟩ := links.supplied.dependency? known depends
  exact ⟨t, j, depends, there, Except.ok.inj (resolves'.symm.trans resolves)⟩

theorem leadsTo_of_asked {x : String × String} (linked : l.registry.Linked q.1)
    (edge : supply.LeadsTo (l.asked q) x) : ∃ q', l.registry.LeadsTo q q' ∧ l.asked q' = x := by
  obtain ⟨m, name⟩ := q
  obtain ⟨i, known, _⟩ := id linked
  have fits := links.ready.wellFormed linked known
  simp only [asked, Registry.identityOf_eq known] at edge
  cases edge with
  | indirect offered declared named source resolves =>
    cases offered.unique (links.offers known)
    obtain ⟨t, j, depends, there, rfl⟩ := links.target_of_resolves linked known
      (links.ready.indirect_requested linked known declared source) resolves
    exact ⟨_, .indirect known declared named source depends,
      by simp only [asked, Registry.identityOf_eq there]⟩
  | star offered undeclared passedOn listed resolves =>
    cases offered.unique (links.offers known)
    obtain ⟨t, j, depends, there, rfl⟩ := links.target_of_resolves linked known
      (fits.stars _ listed) resolves
    exact ⟨_, .star known undeclared passedOn listed depends,
      by simp only [asked, Registry.identityOf_eq there]⟩

theorem reaches_of_asked {x : String × String} (linked : l.registry.Linked q.1)
    (way : ReflTransGen supply.LeadsTo (l.asked q) x) :
    ∃ q', ReflTransGen l.registry.LeadsTo q q' ∧ l.asked q' = x := by
  induction way with
  | refl => exact ⟨q, .refl, rfl⟩
  | tail _ edge ih =>
    obtain ⟨q', way, rfl⟩ := ih
    obtain ⟨q'', edge, same⟩ := links.leadsTo_of_asked (links.ready.reach linked way) edge
    exact ⟨q'', way.tail edge, same⟩

/-- A question that gives a slot is declared, and the slot is as it is declared. -/
theorem declares_of_gives (linked : l.registry.Linked q.1)
    (gives : l.registry.Gives l.store q slot) :
    ∃ p, supply.Declares (l.asked q) p ∧ l.Holds q.1 slot p := by
  obtain ⟨m, name⟩ := q
  obtain ⟨⟨i, known, decl, declared, rfl, own⟩, held⟩ := gives
  have fits := links.ready.wellFormed linked known
  obtain ⟨_, e, there, known', home, present, given⟩ := Registry.exportSlot?_eq_some_iff.mp held
  cases known.symm.trans known'
  obtain ⟨_, present', mine⟩ := links.housed.present m i e known home
  cases present.symm.trans present'
  have houses := links.housed.sound.houses e i.record there ⟨m, i, known, home, rfl⟩ present
  obtain ⟨other, declared', named, content, inStore, owner, type⟩ := houses.exports _ _ given
  cases fits.export_unique declared' declared named
  refine ⟨⟨i.identity, i.kind, decl.binding i.kind, decl.kind, decl.type⟩, ?_,
    ⟨⟨i, known, rfl, rfl⟩, content, inStore, owner.trans mine, ?_, type⟩⟩
  · simp only [asked, Registry.identityOf_eq known]
    exact .own (links.offers known) declared own
  · rw [(links.housed.sound.slots slot content inStore).kind, type, fits.exportKinds decl declared]

theorem gives_of_declares (linked : l.registry.Linked q.1)
    (declares : supply.Declares (l.asked q) p) : ∃ slot, l.registry.Gives l.store q slot := by
  obtain ⟨m, name⟩ := q
  obtain ⟨i, known, _⟩ := id linked
  simp only [asked, Registry.identityOf_eq known] at declares
  obtain ⟨offered, declared, own⟩ := declares
  cases offered.unique (links.offers known)
  exact links.ready.gives_of_ends linked ⟨i, known, _, declared, rfl, own⟩

/-- Slots are the same exactly if they are declared as the same binding. -/
theorem slot_eq_iff (linked : l.registry.Linked q.1) (linked' : l.registry.Linked q'.1)
    (gives : l.registry.Gives l.store q slot) (gives' : l.registry.Gives l.store q' slot')
    (declares : supply.Declares (l.asked q) p) (declares' : supply.Declares (l.asked q') p') :
    slot = slot' ↔ p = p' := by
  obtain ⟨one, declares₁, _, content, there, owner, kind, type⟩ := links.declares_of_gives linked gives
  obtain ⟨other, declares₂, _, content', there', owner', kind', type'⟩ :=
    links.declares_of_gives linked' gives'
  cases declares₁.unique declares
  cases declares₂.unique declares'
  obtain ⟨m, name⟩ := q
  obtain ⟨m', name'⟩ := q'
  obtain ⟨⟨i, known, decl, declared, rfl, own⟩, held⟩ := gives
  obtain ⟨⟨i', known', decl', declared', rfl, own'⟩, held'⟩ := gives'
  simp only [asked, Registry.identityOf_eq known, Registry.identityOf_eq known'] at declares declares'
  cases declares.unique (.own (links.offers known) declared own)
  cases declares'.unique (.own (links.offers known') declared' own')
  constructor
  · rintro rfl
    cases there.symm.trans there'
    cases links.supplied.distinct m m' i i' known known' (owner.symm.trans owner')
    cases known.symm.trans known'
    have same := (links.shared m i known decl declared decl' declared' _ _ held held').mp rfl
    simp only [Provision.mk.injEq, true_and]
    exact ⟨same, kind.symm.trans kind', type.symm.trans type'⟩
  · intro same
    obtain ⟨identity, _, shape, _, _⟩ := Provision.mk.inj same
    cases links.supplied.distinct m m' i i' known known' identity
    cases known.symm.trans known'
    exact (links.shared m i known decl declared decl' declared' _ _ held held').mpr shape

/-- What a name of a linked module stands for is settled by the supply. -/
theorem means_resolve (linked : l.registry.Linked m) (known : l.registry.get? m = some i)
    (name : String) : match l.registry.resolve l.store m name with
      | .notFound => supply.Means (i.identity, name) .nothing
      | .ambiguous => supply.Means (i.identity, name) .several
      | .found origin slot =>
        ∃ p, supply.Means (i.identity, name) (.one p) ∧ l.Holds origin slot p := by
  have inside : ∀ {q}, ReflTransGen l.registry.LeadsTo (m, name) q → l.registry.Linked q.1 :=
    fun way => links.ready.reach (p := (m, name)) linked way
  have start : l.asked (m, name) = (i.identity, name) := by rw [asked, Registry.identityOf_eq known]
  have provides : ∀ {q p}, ReflTransGen l.registry.LeadsTo (m, name) q →
      supply.Declares (l.asked q) p → supply.Provides (i.identity, name) p :=
    fun way declares => ⟨_, start ▸ way.lift l.asked fun _ _ => links.leadsTo, declares⟩
  have gives : ∀ {p}, supply.Provides (i.identity, name) p → ∃ q slot,
      ReflTransGen l.registry.LeadsTo (m, name) q ∧ l.registry.Gives l.store q slot ∧
        supply.Declares (l.asked q) p := by
    rintro p ⟨x, there, declares⟩
    obtain ⟨q, way, rfl⟩ := links.reaches_of_asked (q := (m, name)) linked (start ▸ there)
    obtain ⟨slot, given⟩ := links.gives_of_declares (inside way) declares
    exact ⟨q, slot, way, given, declares⟩
  have verdict := Registry.verdict_resolve links.ready linked name
  cases answer : l.registry.resolve l.store m name with
  | notFound =>
    rw [answer] at verdict
    cases verdict with
    | nothing none =>
      refine .nothing fun p provided => ?_
      obtain ⟨q, _, way, given, _⟩ := gives provided
      exact none q way given.1
  | ambiguous =>
    rw [answer] at verdict
    cases verdict with
    | several way way' given given' different =>
      obtain ⟨p, declares, _⟩ := links.declares_of_gives (inside way) given
      obtain ⟨p', declares', _⟩ := links.declares_of_gives (inside way') given'
      refine .several (provides way declares) (provides way' declares') fun same => different ?_
      exact (links.slot_eq_iff (inside way) (inside way') given given' declares declares').mpr same
  | found origin slot =>
    rw [answer] at verdict
    cases verdict with
    | one exported way given only =>
      obtain ⟨p, declares, holds⟩ := links.declares_of_gives (inside way) given
      refine ⟨p, .one (provides way declares) fun p' provided => ?_, holds⟩
      obtain ⟨q, slot', way', given', declares'⟩ := gives provided
      exact (links.slot_eq_iff (inside way') (inside way) given' given declares' declares).mp
        (only q way' slot' given')

end Questions

/-! ### Imports -/

section Imports

variable {decl : ImportDecl} {origin : ModuleId} {e : LinkError} (links : l.Supplied supply)
  (linked : l.registry.Linked m) (known : l.registry.get? m = some i)
  (declared : decl ∈ i.record.imports)

include links linked known declared

/-- What an import asks for is a name of a linked module. -/
theorem target_of_import {target : ModuleId} (depends : i.dependency? decl.specifier = some target) :
    ∃ j, l.registry.get? target = some j ∧ l.registry.Linked target ∧
      supply.resolver decl.specifier (some i.identity) = .ok j.identity := by
  have requested := ((links.ready.wellFormed linked known).imports decl declared).requested
  obtain ⟨_, depends', inside⟩ := links.ready.closed m i linked known decl.specifier requested
  cases depends.symm.trans depends'
  obtain ⟨j, there, resolves⟩ := links.supplied.dependency? known depends
  exact ⟨j, there, inside, resolves⟩

theorem judges_of_grants (granted : l.Grants m decl origin slot) :
    supply.Judges i.identity decl (.ok ()) := by
  obtain ⟨known', depends, resolved, owned, there, _, fits⟩ := granted
  cases known.symm.trans known'
  obtain ⟨j, asked, inside, resolves⟩ := links.target_of_import linked known declared depends
  have means := links.means_resolve inside asked decl.name
  rw [resolved] at means
  obtain ⟨p, means, ⟨_, owned', _, ownerKind⟩, _, there', _, kind, type⟩ := means
  cases owned.symm.trans owned'
  cases there.symm.trans there'
  have judged := Supply.Judges.mk (links.offers known) resolves means
  have passes : Supply.judgement i.identity j.identity i.record.kind decl (.one p) = .ok () := by
    simp only [Supply.judgement]
    split
    · next both =>
      rw [← kind, ← type, fits both.1 (ownerKind.trans both.2)]
    · rfl
  rwa [passes] at judged

theorem judges_of_refuses (refused : l.Refuses m decl e) :
    supply.Judges i.identity decl (.error e) := by
  cases refused with
  | unresolved known' depends there missing =>
    cases known.symm.trans known'
    obtain ⟨j, asked, inside, resolves⟩ := links.target_of_import linked known declared depends
    cases there.symm.trans asked
    have means := links.means_resolve inside asked decl.name
    rw [missing] at means
    exact .mk (links.offers known) resolves means
  | ambiguous known' depends there several =>
    cases known.symm.trans known'
    obtain ⟨j, asked, inside, resolves⟩ := links.target_of_import linked known declared depends
    cases there.symm.trans asked
    have means := links.means_resolve inside asked decl.name
    rw [several] at means
    exact .mk (links.offers known) resolves means
  | @mismatched _ _ _ _ _ _ reason known' depends resolved owned there _ binary ownerBinary rejected =>
    cases known.symm.trans known'
    obtain ⟨j, asked, inside, resolves⟩ := links.target_of_import linked known declared depends
    have means := links.means_resolve inside asked decl.name
    rw [resolved] at means
    obtain ⟨p, means, ⟨_, owned', identity, ownerKind⟩, _, there', _, kind, type⟩ := means
    cases owned.symm.trans owned'
    cases there.symm.trans there'
    have judged := Supply.Judges.mk (links.offers known) resolves means
    have fails : Supply.judgement i.identity j.identity i.record.kind decl (.one p) =
        .error (.linkType ⟨i.identity, decl.localName, p.owner, reason⟩) := by
      simp only [Supply.judgement]
      rw [if_pos ⟨binary, ownerKind.symm.trans ownerBinary⟩, ← kind, ← type, rejected]
    rw [fails, ← identity] at judged
    exact judged

end Imports

end Supplied

/-! ## Whole graphs -/

variable {l : Links κ} {supply : Supply κ} {g : ModuleGraph}

/-- The imports of registered modules are those of the records that were handed over. -/
theorem imports_identities {r : Registry κ} {ms : List ModuleId} (supplied : r.SuppliedBy supply)
    (registered : ∀ m ∈ ms, ∃ i, r.get? m = some i) :
    (imports r ms).map (fun ask => (r.identityOf ask.1, ask.2)) =
      supply.imports (ms.map r.identityOf) := by
  rw [imports, List.map_flatMap, Supply.imports, List.flatMap_map]
  refine List.flatMap_congr fun m member => ?_
  obtain ⟨i, known⟩ := registered m member
  simp only [known, Registry.identityOf_eq known, supplied.handed m i known, List.map_map]
  exact List.map_congr_left fun decl _ => by rw [Function.comp_apply, Registry.identityOf_eq known]

/-- Links of modules that were supplied, where exports share slots as they declare, and all
that linked modules import was granted. -/
structure Judged (l : Links κ) (supply : Supply κ) : Prop where
  supplied : l.registry.SuppliedBy supply
  shared : l.registry.Shared l.store
  granted : ∀ m i, l.registry.Linked m → l.registry.get? m = some i →
    ∀ decl ∈ i.record.imports, supply.Judges i.identity decl (.ok ())

/-- The imports of a linked module, by its record as it was handed over, are granted. -/
theorem Judged.judges {m : ModuleId} (judged : l.Judged supply) (linked : l.registry.Linked m) :
    ∀ ask ∈ supply.imports [l.registry.identityOf m], supply.Judges ask.1 ask.2 (.ok ()) := by
  intro ask held
  obtain ⟨i, known, _⟩ := id linked
  have registered : ∀ x ∈ [m], ∃ i, l.registry.get? x = some i := by simpa using ⟨i, known⟩
  rw [← List.map_singleton, ← imports_identities judged.supplied registered] at held
  obtain ⟨ask, inside, rfl⟩ := List.mem_map.mp held
  obtain ⟨here, j, known', declared⟩ := mem_imports inside
  rw [List.mem_singleton.mp here] at known'
  cases known.symm.trans known'
  rw [List.mem_singleton.mp here, Registry.identityOf_eq known]
  exact judged.granted m i linked known _ declared

section Whole

variable (housed : l.Housed) (stocked : l.registry.Stocked) (linkage : l.registry.Linkage)
  (faithful : g.Faithful l.registry) (judged : l.Judged supply)

include housed stocked linkage faithful judged

theorem supplied_staged : (l.staged g).Supplied supply where
  housed := (housed_staged (l.pending g) housed (fun x i known =>
    Record.wellFormed_of_validate (stocked.checked x i known)) (Nat.le_refl _)).1
  stocked := (reassigned_staged (l.pending g) l).stocked stocked
  closed _ := closed_staged linkage faithful
  supplied := judged.supplied.reassigned (reassigned_staged (l.pending g) l)
  shared := shared_staged (l.pending g) housed judged.shared fun x i known =>
    Record.wellFormed_of_validate (stocked.checked x i known)

/-- An import of a module that is to be linked is judged as it is granted or refused. -/
theorem judges_pending {ask : ModuleId × ImportDecl}
    (member : ask ∈ imports l.registry (l.pending g)) :
    ((∃ origin slot, (l.staged g).Grants ask.1 ask.2 origin slot) →
      supply.Judges (l.registry.identityOf ask.1) ask.2 (.ok ())) ∧
    ∀ e, (l.staged g).Refuses ask.1 ask.2 e →
      supply.Judges (l.registry.identityOf ask.1) ask.2 (.error e) := by
  have links := supplied_staged housed stocked linkage faithful judged
  obtain ⟨pending, i, known, declared⟩ := mem_imports member
  obtain ⟨environment, component, change⟩ := reassigned_staged (l.pending g) l ask.1
  rw [known, Option.map_some] at change
  rw [Registry.identityOf_eq known]
  have linked : (l.staged g).registry.Linked ask.1 := (linked_staged l).mpr (.inr pending)
  refine ⟨fun ⟨_, _, granted⟩ => ?_, fun _ refused => ?_⟩
  · exact links.judges_of_grants (i := { i with environment, component }) linked change declared granted
  · exact links.judges_of_refuses (i := { i with environment, component }) linked change declared refused

/-- The imports of a graph decide whether it is linked, those of its modules that were
linked before among them. -/
theorem judgesAll_link (acyclic : g.binaryCycle? = none) :
    supply.JudgesAll (supply.imports (g.modules.map l.registry.identityOf))
      ((link l g).map fun _ => ()) := by
  have judges := fun ask (member : ask ∈ imports l.registry (l.pending g)) =>
    judges_pending housed stocked linkage faithful judged member
  have apart : ∀ ms : List ModuleId, supply.imports (ms.map l.registry.identityOf) =
      ms.flatMap fun m => supply.imports [l.registry.identityOf m] := by
    simp [Supply.imports, List.flatMap_map]
  rw [apart]
  refine .of_filter (fun m => (l.registry.get? m).any fun i => !i.isLinked)
    (fun m member chosen => ?_) ?_
  · have absent : m ∉ l.pending g := fun pending => by
      obtain ⟨_, selected⟩ := List.mem_filter.mp pending
      rw [chosen] at selected
      cases selected
    exact judged.judges ((linked_or_pending faithful member).resolve_right absent)
  change supply.JudgesAll ((l.pending g).flatMap _) _
  rw [← apart, ← imports_identities judged.supplied fun m member =>
    (mem_pending.mp member).2.imp fun _ => And.left]
  have decision := decision_link housed stocked linkage faithful
  generalize link l g = result at decision
  cases decision with
  | cyclic closed => exact absurd closed (ModuleGraph.no_binaryCycle acyclic _)
  | @refused first rest ask e _ parts granted refused =>
    rw [parts, List.map_append, List.map_cons]
    refine .skip (fun other held => ?_) (.refused ?_)
    · obtain ⟨ask, inside, rfl⟩ := List.mem_map.mp held
      exact (judges ask (parts ▸ List.mem_append_left _ inside)).1 (granted ask inside)
    · exact (judges ask (by simp [parts])).2 e refused
  | granted _ granted _ =>
    rw [← List.append_nil (List.map _ _)]
    refine .skip (fun other held => ?_) .done
    obtain ⟨ask, inside, rfl⟩ := List.mem_map.mp held
    exact (judges ask inside).1 (granted ask inside)

/-- How a graph is linked is settled by its modules and by what was supplied. -/
theorem concludes_link : supply.Concludes g ((link l g).map fun _ => ()) := by
  cases found : g.binaryCycle? with
  | some cycle =>
    rw [link_of_cycle found]
    exact .cyclic found
  | none =>
    have decided := judgesAll_link housed stocked linkage faithful judged found
    rw [← faithful.identities] at decided
    exact .judged found decided

/-- What a link binds was granted. -/
theorem judged_of_link {l' : Links κ} (ran : link l g = .ok l') : l'.Judged supply := by
  obtain ⟨joined, _⟩ := joined_of_link linkage faithful ran
  refine ⟨judged.supplied.reassigned joined.reassigned,
    shared_of_link housed stocked linkage faithful judged.shared ran,
    fun m i linked known decl declared => ?_⟩
  obtain ⟨_, _, change⟩ := joined.reassigned m
  rw [known] at change
  obtain ⟨j, before, rfl⟩ := Option.map_eq_some_iff.mp change.symm
  by_cases pending : m ∈ l.pending g
  · have decision := decision_link housed stocked linkage faithful
    rw [ran] at decision
    cases decision with
    | granted _ granted _ =>
      have member : (m, decl) ∈ imports l.registry (l.pending g) :=
        List.mem_flatMap.mpr ⟨m, pending, by simpa [before] using declared⟩
      have judges := (judges_pending housed stocked linkage faithful judged member).1
        (granted _ member)
      rwa [Registry.identityOf_eq before] at judges
  · have linked' := ((joined.linked m).mp linked).resolve_right pending
    exact judged.granted m j linked' before decl declared

end Whole

end Links
end MixedModules
