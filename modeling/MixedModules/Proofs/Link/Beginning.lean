import MixedModules.Proofs.Link.Wiring

/-! What slots hold when their module is linked.

A function that is declared with an export is made together with its slot, which holds it
from the start. Every other slot of a module that is linked now is empty, and was never
touched. -/
namespace MixedModules

variable {κ : Type}

/-- An export that makes an own binding: in a script module the one that it names, and that of
the function which it declares. -/
def ExportDecl.Binds (decl : ExportDecl κ) (kind : ModuleKind) (name : String) : Prop :=
  match decl.source, kind with
  | .own own, .script => own = name
  | .declaration _, _ => decl.name = name
  | _, _ => False

/-- The names of the own bindings of a module. -/
def Record.Owns (r : Record κ) (name : String) : Prop := ∃ decl ∈ r.exports, decl.Binds r.kind name

namespace Store

variable {s s' s₁ : Store κ} {e : EnvironmentId} {record : Record κ} {environment : Environment}
  {locals : Scope SlotId} {bindings : Bindings} {identity name : String} {i : SlotId}

/-- What an own binding of a module begins with: the function that is declared under its
name, closed over the module, or nothing. -/
inductive Begins (s : Store κ) (e : EnvironmentId) (record : Record κ) (name : String) :
    SlotContent → Prop
  | declared {decl : ExportDecl κ} {code : κ} {f : FunctionId} (declared : decl ∈ record.exports)
      (named : decl.name = name) (source : decl.source = .declaration code)
      (function : s.function f = .ok ⟨name, .script code e⟩) : Begins s e record name (.live (.function f))
  | untouched (none : ∀ decl ∈ record.exports, decl.name = name → ∀ code,
      decl.source ≠ .declaration code) : Begins s e record name .uninitialized

/-- The slots of own bindings bear the names of these and the identity of their module, have
no type, and hold what their bindings begin with. There is none that no export makes. -/
structure Opens (s : Store κ) (e : EnvironmentId) (record : Record κ) (identity : String)
    (locals : Scope SlotId) : Prop where
  distinct : locals.names.Nodup
  owned : ∀ name i, locals.get? name = some i → record.Owns name
  slots : ∀ name i, locals.get? name = some i → ∃ content,
    s.slot? i = some ⟨identity, name, .value, .none, content⟩ ∧ s.Begins e record name content

namespace Opens

theorem kept (opens : s.Opens e record identity locals)
    (slots : ∀ i slot, s.slot? i = some slot → s'.slot? i = some slot)
    (functions : ∀ f function, s.function f = .ok function → s'.function f = .ok function) :
    s'.Opens e record identity locals := by
  refine ⟨opens.distinct, opens.owned, fun name i held => ?_⟩
  obtain ⟨content, there, begins⟩ := opens.slots name i held
  refine ⟨content, slots i _ there, ?_⟩
  cases begins with
  | declared declared named source function =>
    exact .declared declared named source (functions _ _ function)
  | untouched none => exact .untouched none

theorem adds (opens : s.Opens e record identity locals) (adds : s.Adds s') :
    s'.Opens e record identity locals := opens.kept adds.slots adds.functions

/-- One more own binding gets a slot. -/
theorem put {content : SlotContent} (opens : s.Opens e record identity locals)
    (owns : record.Owns name) (begins : s.Begins e record name content) :
    (s.addSlot ⟨identity, name, .value, .none, content⟩).2.Opens e record identity
      (locals.put name (s.addSlot ⟨identity, name, .value, .none, content⟩).1) := by
  refine ⟨Scope.nodup_names_put opens.distinct name _, fun other j held => ?_, fun other j held => ?_⟩
  · rw [Scope.get?_put] at held
    split at held
    · next same => exact same ▸ owns
    · exact opens.owned other j held
  have added := Adds.addSlot s ⟨identity, name, .value, .none, content⟩
  rw [Scope.get?_put] at held
  split at held
  · next same =>
    subst same
    cases held
    refine ⟨content, by rw [slot?_addSlot]; exact if_pos rfl, ?_⟩
    cases begins with
    | declared declared named source function =>
      exact .declared declared named source (added.functions _ _ function)
    | untouched none => exact .untouched none
  · exact (opens.adds added).slots other j held

end Opens

/-- Declared functions have slots that hold them. -/
theorem opens_declareFunctions (identity : String) {decls : List (ExportDecl κ)}
    (declared : ∀ decl ∈ decls, decl ∈ record.exports) (opens : s.Opens e record identity locals) :
    (decls.foldl (declareFunction identity e) (locals, s)).2.Opens e record identity
      (decls.foldl (declareFunction identity e) (locals, s)).1 := by
  induction decls generalizing locals s with
  | nil => exact opens
  | cons decl rest ih =>
    refine ih (fun other member => declared other (List.mem_cons_of_mem _ member)) ?_
    cases source : decl.source with
    | declaration code =>
      have made := function_addFunction s decl.name (.script code e)
      have binds : decl.Binds record.kind decl.name := by simp [ExportDecl.Binds, source]
      exact (opens.adds (.addFunction s decl.name (.script code e))).put
        ⟨decl, declared decl List.mem_cons_self, binds⟩ (.declared (declared decl List.mem_cons_self) rfl source made)
    | own | observed | indirect => exact opens

/-- An own binding that an export names is empty, unless it is that of a declared function,
which has its slot already. -/
theorem opens_exportSlot (identity : String) {decl : ExportDecl κ} (declared : decl ∈ record.exports)
    (functions : ∀ decl ∈ record.exports, ∀ code, decl.source = .declaration code →
      ∃ i, bindings.locals.get? decl.name = some i)
    (opens : s.Opens e record identity bindings.locals) :
    (exportSlot identity record.kind (bindings, s) decl).2.Opens e record identity
      (exportSlot identity record.kind (bindings, s) decl).1.locals := by
  have separate := opens.adds (.addSlot s ⟨identity, decl.name, decl.kind, decl.type, .uninitialized⟩)
  unfold exportSlot
  cases source : decl.source with
  | own name =>
    cases kind : record.kind with
    | binary => exact separate
    | script =>
      unfold ownSlot
      cases held : bindings.locals.get? name with
      | some i => simpa only [held] using opens
      | none =>
        simp only [held]
        have binds : decl.Binds record.kind name := by simp [ExportDecl.Binds, source, kind]
        refine opens.put ⟨decl, declared, binds⟩ (.untouched ?_)
        rintro other declared rfl code declares
        obtain ⟨i, there⟩ := functions other declared code declares
        rw [held] at there
        cases there
  | declaration code => cases held : bindings.locals.get? decl.name <;> simpa only [held] using opens
  | observed localName => exact separate
  | indirect specifier inner => exact opens

theorem opens_exportSlots (bindings : Bindings) (identity : String) {decls : List (ExportDecl κ)}
    (declared : ∀ decl ∈ decls, decl ∈ record.exports)
    (functions : ∀ decl ∈ record.exports, ∀ code, decl.source = .declaration code →
      ∃ i, bindings.locals.get? decl.name = some i)
    (opens : s.Opens e record identity bindings.locals) :
    (decls.foldl (exportSlot identity record.kind) (bindings, s)).2.Opens e record identity
      (decls.foldl (exportSlot identity record.kind) (bindings, s)).1.locals := by
  induction decls generalizing bindings s with
  | nil => exact opens
  | cons decl rest ih =>
    refine ih _ (fun other member => declared other (List.mem_cons_of_mem _ member))
      (fun other member code source => ?_)
      (opens_exportSlot identity (declared decl List.mem_cons_self) functions opens)
    obtain ⟨i, there⟩ := functions other member code source
    exact (gives_exportSlot identity record.kind (bindings, s) decl).1 _ i there

/-- One environment joins those that are there, and what its own bindings begin with is in
their slots. -/
structure Joins (s s' : Store κ) (record : Record κ) (environment : Environment) : Prop where
  slots : ∀ i slot, s.slot? i = some slot → s'.slot? i = some slot
  functions : ∀ f function, s.function f = .ok function → s'.function f = .ok function
  environments : ∀ e, s'.environment? e =
    if e = ⟨s.environments.size⟩ then some environment else s.environment? e
  kind : environment.kind = record.kind
  opens : s'.Opens ⟨s.environments.size⟩ record environment.identity environment.locals

/-- The own bindings of a module hold what they begin with when its slots are made. -/
theorem allocate_joins (s : Store κ) (identity : String) (fits : record.WellFormed) :
    (s.allocate identity record).1 = ⟨s.environments.size⟩ ∧
      ∃ environment, s.Joins (s.allocate identity record).2 record environment := by
  obtain ⟨s₁, environment, made, adds, kind, _⟩ := allocate_makes identity s fits
  have reads : ∀ e, (s.allocate identity record).2.environment? e =
      if e = ⟨s.environments.size⟩ then some environment else s.environment? e := by
    intro e
    rw [made]
    simp only [addEnvironment, environment?, Array.getElem?_push, adds.environments]
    cases e
    simp
  have home : (s.allocate identity record).1 = ⟨s.environments.size⟩ := by
    rw [made, addEnvironment, adds.environments]
  have none : s.Opens ⟨s.environments.size⟩ record identity .empty :=
    ⟨by simp [Scope.names, Scope.empty], fun name i held => (by cases held),
      fun name i held => by cases held⟩
  have functions := (declares_foldl identity ⟨s.environments.size⟩ record.exports (.empty, s)).2
  have opens := opens_exportSlots ⟨_, .empty⟩ identity (fun _ member => member) functions
    (opens_declareFunctions identity (fun _ member => member) none)
  have here : (s.allocate identity record).2.environment? (s.allocate identity record).1 = some _ :=
    Array.getElem?_push_size
  rw [home, reads, if_pos rfl] at here
  refine ⟨home, environment, ?_, ?_, reads, kind, ?_⟩
  · rw [made]
    exact adds.slots
  · rw [made]
    exact adds.functions
  · rw [Option.some.inj here]
    exact opens.kept (fun _ _ there => there) fun _ _ there => there

end Store

namespace Links

open Store

variable {l l' : Links κ} {g : ModuleGraph} {m : ModuleId} {n : Nat}

/-- An environment that is not one of the first `n` belongs to a module, whose own bindings
hold what they begin with. -/
def Opened (n : Nat) (l : Links κ) : Prop :=
  ∀ e environment, l.store.environment? e = some environment → n ≤ e.index → ∃ m i,
    l.Lives m i e environment ∧ environment.kind = i.record.kind ∧
      l.store.Opens e i.record environment.identity environment.locals

theorem opened_stage (opened : Opened n l)
    (fits : ∀ i, l.registry.get? m = some i → i.record.WellFormed) : Opened n (l.stage m) := by
  cases known : l.registry.get? m with
  | none =>
    simp only [stage, known]
    exact opened
  | some i =>
    by_cases linked : i.isLinked = true
    · simp only [stage, known, if_pos linked]
      exact opened
    obtain ⟨home, environment, joins⟩ := l.store.allocate_joins i.identity (fits i known)
    have store : (l.stage m).store = (l.store.allocate i.identity i.record).2 := by
      simp only [stage, known, if_neg linked]
    have here : (l.stage m).registry.get? m =
        some { i with environment := some ⟨l.store.environments.size⟩ } := by
      simp only [stage, known, if_neg linked, Registry.get?_modify, if_pos, home]
      rfl
    intro e after present new
    rw [store] at present ⊢
    rw [joins.environments] at present
    split at present
    · next same =>
      subst same
      cases present
      refine ⟨m, _, ⟨here, rfl, ?_⟩, joins.kind, joins.opens⟩
      rw [store, joins.environments, if_pos rfl]
    · next other =>
      obtain ⟨x, j, lives, kind, opens⟩ := opened e after present new
      refine ⟨x, j, ⟨(linked_stage lives.linked).trans lives.known, lives.home, ?_⟩, kind,
        opens.kept joins.slots joins.functions⟩
      rw [store, joins.environments, if_neg other, present]

theorem opened_staged (ms : List ModuleId) (opened : Opened n l)
    (fits : ∀ x i, l.registry.get? x = some i → i.record.WellFormed) :
    Opened n (ms.foldl stage l) := by
  induction ms generalizing l with
  | nil => exact opened
  | cons m rest ih =>
    refine ih (opened_stage opened (fits m)) fun x j held => ?_
    obtain ⟨i, known, same⟩ := record_stage held
    exact same ▸ fits x i known

/-- Binding imports adds slots to those that are there. -/
theorem opened_bindModule (opened : Opened n l) (ran : bindModule l m = .ok l') : Opened n l' := by
  intro e after present new
  obtain ⟨before, there, same⟩ := scopes_bindModule ran present
  obtain ⟨x, j, lives, kind, opens⟩ := opened e before there new
  refine ⟨x, j, ⟨(registry_bindModule ran).symm ▸ lives.known, lives.home, present⟩, ?_, ?_⟩
  · rw [same]
    exact kind
  rw [same]
  rcases bindModule_cases ran with rfl | ⟨i, mine, imports, between, _, _, binds, rfl⟩
  · exact opens
  · obtain ⟨adds, _⟩ := makes_resolveImports (.refl l.store)
      (⟨by simp [Scope.values, Scope.empty], by simp [Scope.values, Scope.empty]⟩) binds
    exact opens.kept adds.slots adds.functions

theorem opened_bindAll {ms : List ModuleId} (opened : Opened n l)
    (ran : ms.foldlM bindModule l = .ok l') : Opened n l' := by
  induction ms generalizing l with
  | nil =>
    cases ran
    exact opened
  | cons m rest ih =>
    rw [List.foldlM_cons] at ran
    obtain ⟨between, first, others⟩ := bind_eq_ok ran
    exact ih (opened_bindModule opened first) others

/-- Modules that are linked now have own bindings that hold what they begin with. -/
theorem opened_of_link (stocked : l.registry.Stocked) (ran : link l g = .ok l') :
    Opened l.store.environments.size l' := by
  obtain ⟨_, bound, binds, rfl⟩ := link_eq_ok ran
  have none : Opened l.store.environments.size l := by
    intro e environment present new
    have inside := (Array.getElem?_eq_some_iff.mp present).1
    omega
  have opened := opened_bindAll (opened_staged (l.pending g) none fun x i known =>
    Record.wellFormed_of_validate (stocked.checked x i known)) binds
  intro e environment present new
  obtain ⟨x, i, lives, kind, opens⟩ := opened e environment present new
  obtain ⟨component, change⟩ := Registry.get?_addComponents
    (g.components (l.pending g).contains) bound.registry x
  rw [lives.known] at change
  exact ⟨x, _, ⟨change, lives.home, present⟩, kind, opens⟩

end Links
end MixedModules
