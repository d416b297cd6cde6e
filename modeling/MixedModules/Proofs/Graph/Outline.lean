import MixedModules.Proofs.Graph.Settling

/-! What a build comes to, told on identities alone.

Where the loader hands over the same each time, it does not matter whether a module is
registered already or has to be asked for: either way a build learns of it what the supply
hands over. So what a build comes to can be worked out without a registry, and however many
modules are expanded at a time, it stops for the reason that is first in order. -/
namespace MixedModules

variable {κ ℓ : Type}

/-- Two computations end alike: both give results that fit, or both stop, for like reasons. -/
inductive Alike {α β : Type} (like : Stop → Stop → Prop) (fits : β → α → Prop) :
    Except Stop β → Except Stop α → Prop where
  | ok {b : β} {a : α} (holds : fits b a) : Alike like fits (.ok b) (.ok a)
  | error {expected reason : Stop} (same : like expected reason) :
      Alike like fits (.error expected) (.error reason)

theorem Alike.mono {α β : Type} {like weaker : Stop → Stop → Prop} {fits other : β → α → Prop}
    {expected : Except Stop β} {result : Except Stop α} (alike : Alike like fits expected result)
    (liker : ∀ expected reason, like expected reason → weaker expected reason)
    (implies : ∀ b a, fits b a → other b a) : Alike weaker other expected result := by
  cases alike with
  | ok holds => exact .ok (implies _ _ holds)
  | error same => exact .error (liker _ _ same)

/-- The first failure among results is like the first among what was expected of them. -/
theorem alike_mapM {α β : Type} {like : Stop → Stop → Prop} {fits : β → α → Prop}
    {expected : List (Except Stop β)} {results : List (Except Stop α)}
    (each : List.Forall₂ (Alike like fits) expected results) :
    Alike like (List.Forall₂ fits) (expected.mapM id) (results.mapM id) := by
  induction each with
  | nil => exact .ok .nil
  | @cons wanted result others rest head _ ih =>
    rw [List.mapM_cons, List.mapM_cons]
    cases head with
    | error same => exact .error same
    | ok holds =>
      simp only [id, bind, Except.bind]
      generalize others.mapM id = others at ih ⊢
      generalize rest.mapM id = rest at ih ⊢
      cases ih with
      | ok rest => exact .ok (.cons holds rest)
      | error same => exact .error same

/-- Piece by piece the first failure is the same. -/
theorem mapM_flatten {α β : Type} (f : α → Except Stop β) (xss : List (List α)) :
    xss.flatten.mapM f = (do
      let yss ← xss.mapM fun xs => xs.mapM f
      return yss.flatten) := by
  induction xss with
  | nil => rfl
  | cons xs rest ih => simp [List.mapM_append, ih]

/-- What a stop comes to where so many modules are expanded at a time: beside others, a
crash of the loader is a failure. -/
def Stop.ComesTo (concurrency : Nat) (reason met : Stop) : Prop :=
  met = reason ∨ 1 < concurrency ∧ reason = .crashed ∧
    ∃ identity, met = .failed (.fetch identity "loader worker panicked")

/-- The record that was handed over for an identity, if it passes its check. -/
def Loaded.checked (identity : String) : Loaded κ → Except Stop (Record κ)
  | .record handed =>
    match handed.validate with
    | .ok _ => .ok handed
    | .error fault => .error (.failed (.malformed identity fault.message))
  | .unfetched message => .error (.failed (.fetch identity message))
  | .unparsed message => .error (.failed (.malformed identity message))
  | .crashed => .error .crashed

namespace Supply

/-- The record of an identity, if it is handed over and passes its check. -/
def fetch (supply : Supply κ) (identity : String) : Except Stop (Record κ) :=
  (supply.hand identity).checked identity

/-- The identity that a specifier resolves to. -/
def meaning (supply : Supply κ) (specifier : String) (referrer : Option String) :
    Except Stop String :=
  match supply.resolver specifier referrer with
  | .ok identity => .ok identity
  | .error reason => .error (.failed (.resolution specifier referrer reason))

/-- The identity that a specifier resolves to, if its record is there. -/
def answer (supply : Supply κ) (referrer specifier : String) : Except Stop String := do
  let identity ← supply.meaning specifier (some referrer)
  let _ ← supply.fetch identity
  return identity

/-- The identities that a module asks for, if all of them are there. -/
def expand (supply : Supply κ) (identity : String) : Except Stop (List String) := do
  let record ← supply.fetch identity
  record.requested.mapM (supply.answer identity)

/-- One round: its members are expanded, and what they ask for is added, if there is room. -/
def advance (supply : Supply κ) (limit : Nat) (known round : List String) :
    Except Stop (List String) := do
  let asked ← round.mapM supply.expand
  let all := (known ++ asked.flatten).eraseDups
  if max limit 1 < all.length then throw (.failed (.tooLarge limit)) else return all

/-- All that is found from what is known, round by round. -/
def outline (supply : Supply κ) (limit : Nat) :
    Nat → List String → List String → Except Stop (List String)
  | _, known, [] => .ok known
  | 0, _, _ :: _ => .error (.failed (.tooLarge limit))
  | rounds + 1, known, first :: rest => do
    let all ← supply.advance limit known (first :: rest)
    supply.outline limit rounds all (all.drop known.length)

/-- What a build of an entry comes to: the identities of its graph, or the reason to stop. -/
def verdict (supply : Supply κ) (limit : Nat) (entry : String) : Except Stop (List String) := do
  let start ← supply.meaning entry none
  let _ ← supply.fetch start
  supply.outline limit (limit + 1) [start] [start]

variable {supply : Supply κ} {identity : String}

theorem Offers.fetch_eq {record : Record κ} (offers : supply.Offers identity record) :
    supply.fetch identity = .ok record := by
  unfold fetch
  rw [offers.1]
  simp only [Loaded.checked, offers.2]

end Supply

namespace Registry

variable {r r' : Registry κ} {supply : Supply κ} {m : ModuleId} {i : Instance κ}

/-- Registered modules with their identities. -/
structure Lists (r : Registry κ) (identities : List String) (ms : List ModuleId) : Prop where
  registered : ∀ m ∈ ms, ∃ i, r.get? m = some i
  identities : ms.map r.identityOf = identities

theorem Grows.identityOf {may : ModuleId → Prop} (grows : r.Grows may r')
    (known : ∃ i, r.get? m = some i) : r'.identityOf m = r.identityOf m := by
  obtain ⟨i, known⟩ := known
  obtain ⟨_, known', _⟩ := grows.kept m i known
  rw [identityOf_eq known, identityOf_eq known']

theorem Lists.grows {identities : List String} {ms : List ModuleId} {may : ModuleId → Prop}
    (lists : r.Lists identities ms) (grows : r.Grows may r') : r'.Lists identities ms :=
  ⟨fun m member => grows.registered (lists.registered m member),
    (List.map_congr_left fun m member => grows.identityOf (lists.registered m member)).trans
      lists.identities⟩

/-- What is listed twice bears the same identity, and only that does. -/
theorem Lists.eraseDups {identities : List String} {ms : List ModuleId}
    (lists : r.Lists identities ms) (supplied : r.SuppliedBy supply) :
    r.Lists identities.eraseDups ms.eraseDups := by
  refine ⟨fun m member => lists.registered m (List.mem_eraseDups.mp member), ?_⟩
  rw [map_eraseDups, lists.identities]
  intro m member m' member' same
  obtain ⟨i, known⟩ := lists.registered m member
  obtain ⟨i', known'⟩ := lists.registered m' member'
  rw [identityOf_eq known, identityOf_eq known'] at same
  exact supplied.distinct m m' i i' known known' same

theorem Lists.append {identities others : List String} {ms ms' : List ModuleId}
    (lists : r.Lists identities ms) (lists' : r.Lists others ms') :
    r.Lists (identities ++ others) (ms ++ ms') := by
  refine ⟨fun m member => (List.mem_append.mp member).elim (lists.registered m)
    (lists'.registered m), ?_⟩
  rw [List.map_append, lists.identities, lists'.identities]

/-- The dependencies of modules, with the identities that each of these asks for. -/
def ListsEach (r : Registry κ) (asked : List (List String)) (expanded : List Dependencies) : Prop :=
  List.Forall₂ (fun identities dependencies => r.Lists identities (dependencies.map (·.2))) asked
    expanded

theorem ListsEach.grows {asked : List (List String)} {expanded : List Dependencies}
    {may : ModuleId → Prop} (lists : r.ListsEach asked expanded) (grows : r.Grows may r') :
    r'.ListsEach asked expanded :=
  lists.imp fun _ _ lists => lists.grows grows

/-- What a module has resolved its specifiers to is what it would ask for. -/
theorem SuppliedBy.expand_eq {dependencies : Dependencies} (supplied : r.SuppliedBy supply)
    (stocked : r.Stocked) (known : r.get? m = some i)
    (resolved : i.dependencies = some dependencies) :
    ∃ asked, supply.expand i.identity = .ok asked ∧ r.Lists asked (dependencies.map (·.2)) := by
  have names := (stocked.resolved m i dependencies known resolved).1
  have answers := supplied.resolved m i dependencies known resolved
  have found : ∀ ds : Dependencies, (∀ d ∈ ds, d ∈ dependencies) →
      (ds.map (·.1)).mapM (supply.answer i.identity) =
        .ok ((ds.map (·.2)).map r.identityOf) := by
    intro ds inside
    induction ds with
    | nil => rfl
    | cons d rest ih =>
      obtain ⟨j, there, resolves⟩ := answers d (inside d List.mem_cons_self)
      have here : supply.answer i.identity d.1 = .ok (r.identityOf d.2) := by
        unfold Supply.answer Supply.meaning
        rw [resolves, identityOf_eq there]
        simp only [bind, Except.bind, (supplied.offers stocked there).fetch_eq]
        rfl
      rw [List.map_cons, List.mapM_cons, here,
        ih fun other member => inside other (List.mem_cons_of_mem _ member)]
      rfl
  refine ⟨_, ?_, ⟨fun target member => ?_, rfl⟩⟩
  · unfold Supply.expand
    rw [(supplied.offers stocked known).fetch_eq]
    show i.record.requested.mapM (supply.answer i.identity) = _
    rw [← names]
    exact found dependencies fun _ member => member
  · obtain ⟨d, held, rfl⟩ := List.mem_map.mp member
    obtain ⟨j, there, _⟩ := answers d held
    exact ⟨j, there⟩

end Registry

namespace Loads

variable {α β γ δ : Type} {supply : Supply κ} {like : Stop → Stop → Prop} {stock : Stock κ ℓ}
  {fits : β → α → Registry κ → Prop} {after : δ → γ → Registry κ → Prop}
  {expected : Except Stop β} {may : ModuleId → Prop}

/-- From what was supplied the computation ends as expected, with what is supplied. -/
def Answers (supply : Supply κ) (like : Stop → Stop → Prop) (x : Loads κ ℓ α) (stock : Stock κ ℓ)
    (expected : Except Stop β) (fits : β → α → Registry κ → Prop) : Prop :=
  stock.registry.Stocked → stock.registry.SuppliedBy supply →
    (x.outcome stock).2.registry.SuppliedBy supply ∧
      Alike like (fun b a => fits b a (x.outcome stock).2.registry) expected (x.outcome stock).1

theorem answers_pure {a : α} {b : β} (holds : fits b a stock.registry) :
    Answers supply like (pure a : Loads κ ℓ α) stock (.ok b) fits :=
  fun _ supplied => ⟨supplied, .ok holds⟩

theorem answers_throw {expected reason : Stop} (same : like expected reason) :
    Answers supply like (throw reason : Loads κ ℓ α) stock (.error expected) fits :=
  fun _ supplied => ⟨supplied, .error same⟩

theorem answers_bind (may : ModuleId → Prop) {known : α → Registry κ → Prop} {x : Loads κ ℓ α}
    {f : α → Loads κ ℓ γ} {g : β → Except Stop δ} (yields : Yields may x stock known)
    (first : Answers supply like x stock expected fits)
    (next : ∀ b a between, stock.registry.Grows may between.registry → between.registry.Stocked →
      between.registry.SuppliedBy supply → known a between.registry → fits b a between.registry →
      Answers supply like (f a) between (g b) after) :
    Answers supply like (x >>= f) stock (expected >>= g) after := by
  intro stocked supplied
  obtain ⟨grows, stocked', holds⟩ := yields stocked
  obtain ⟨supplied', alike⟩ := first stocked supplied
  rw [outcome_bind]
  rcases result : x.outcome stock with ⟨reason | a, between⟩
  · rw [result] at supplied' alike
    cases alike with
    | error same => exact ⟨supplied', .error same⟩
  · rw [result] at grows stocked' holds supplied' alike
    cases alike with
    | ok fit => exact next _ a between grows stocked' supplied' (holds a rfl) fit stocked' supplied'

theorem Answers.mono {x : Loads κ ℓ α} {weaker : Stop → Stop → Prop}
    {other : β → α → Registry κ → Prop} (answers : Answers supply like x stock expected fits)
    (liker : ∀ expected reason, like expected reason → weaker expected reason)
    (implies : ∀ b a r, fits b a r → other b a r) :
    Answers supply weaker x stock expected other := by
  intro stocked supplied
  obtain ⟨supplied', alike⟩ := answers stocked supplied
  exact ⟨supplied', alike.mono liker fun b a => implies b a _⟩

/-- What is known of a result anyway can be said of it too. -/
theorem Answers.yielded (may : ModuleId → Prop) {x : Loads κ ℓ α} {known : α → Registry κ → Prop}
    (answers : Answers supply like x stock expected fits) (yields : Yields may x stock known) :
    Answers supply like x stock expected fun b a r => fits b a r ∧ known a r := by
  intro stocked supplied
  obtain ⟨_, _, holds⟩ := yields stocked
  obtain ⟨supplied', alike⟩ := answers stocked supplied
  generalize x.outcome stock = ended at holds supplied' alike
  obtain ⟨result, between⟩ := ended
  refine ⟨supplied', ?_⟩
  cases alike with
  | ok fit => exact .ok ⟨fit, holds _ rfl⟩
  | error same => exact .error same

theorem answers_mapM (may : ModuleId → Prop) (after : δ → γ → Registry κ → Prop)
    {f : α → Loads κ ℓ γ} {g : α → Except Stop δ} (xs : List α)
    (yields : ∀ a ∈ xs, ∀ between, stock.registry.Grows may between.registry →
      Yields may (f a) between fun _ _ => True)
    (each : ∀ a ∈ xs, ∀ between, stock.registry.Grows may between.registry →
      Answers supply like (f a) between (g a) after)
    (lasting : ∀ b a r r', after b a r → r.Grows may r' → after b a r') :
    Answers supply like (xs.mapM f) stock (xs.mapM g)
      fun bs as r => List.Forall₂ (fun b a => after b a r) bs as := by
  induction xs generalizing stock with
  | nil =>
    rw [List.mapM_nil, List.mapM_nil]
    exact answers_pure .nil
  | cons a rest ih =>
    rw [List.mapM_cons, List.mapM_cons]
    have later := fun other member last further =>
      yields other (List.mem_cons_of_mem a member) last further
    refine answers_bind may (yields a List.mem_cons_self stock (.refl _))
      (each a List.mem_cons_self stock (.refl _)) fun b c between grows _ _ _ holds => ?_
    have others := yields_mapM rest
      (fun other member last further => later other member last (grows.trans further))
      fun _ _ _ _ _ _ => trivial
    have rests := ih (fun other member last further => later other member last (grows.trans further))
      fun other member last further =>
        each other (List.mem_cons_of_mem _ member) last (grows.trans further)
    exact answers_bind may others.grown rests fun bs cs last _ _ _ ⟨_, further⟩ held =>
      answers_pure (.cons (lasting b c _ _ holds further) held)

private theorem lists_of_each {r : Registry κ} {asked : List String} {found : Dependencies}
    (each : List.Forall₂ (fun identity (d : String × ModuleId) =>
      ∃ j, r.get? d.2 = some j ∧ j.identity = identity) asked found) :
    r.Lists asked (found.map (·.2)) := by
  induction each with
  | nil => exact ⟨by simp, rfl⟩
  | cons head _ ih =>
    obtain ⟨j, there, rfl⟩ := head
    refine ⟨List.forall_mem_cons.mpr ⟨⟨j, there⟩, ih.registered⟩, ?_⟩
    rw [List.map_cons, List.map_cons, ih.identities, Registry.identityOf_eq there]

/-! ### Loading -/

section Loading

variable {loader : Loader κ ℓ} {identity specifier referrer : String} {m : ModuleId} {i : Instance κ}
  (steady : ∀ identity source, (loader identity source).1 = supply.hand identity)

theorem answers_resolve {referrer : Option String} :
    Answers supply Eq (resolve supply.resolver specifier referrer : Loads κ ℓ String) stock
      (supply.meaning specifier referrer) fun expected identity _ => identity = expected := by
  unfold resolve Supply.meaning
  cases supply.resolver specifier referrer with
  | ok identity => exact answers_pure rfl
  | error reason => exact answers_throw rfl

/-- What a request to the loader comes to. -/
theorem load_checked (loader : Loader κ ℓ) (identity : String) (stock : Stock κ ℓ) :
    ((load loader identity).outcome stock).1 =
      ((loader identity stock.source).1.checked identity).map fun _ => ⟨stock.registry.size⟩ := by
  rw [outcome_load]
  rcases loader identity stock.source with ⟨record | message | message | _, source⟩
  · dsimp only [Loaded.checked]
    cases record.validate <;> rfl
  all_goals rfl

include steady

/-- Whether a module is registered or has to be loaded, what comes of it is the same. -/
theorem answers_obtain : Answers supply Eq (obtain loader identity) stock (supply.fetch identity)
    fun _ m r => ∃ i, r.get? m = some i ∧ i.identity = identity := by
  have alike : Answers supply Eq (obtain loader identity) stock (supply.fetch identity)
      fun _ _ _ => True := by
    intro stocked supplied
    refine ⟨(settles_obtain steady stocked supplied).1, ?_⟩
    rw [outcome_obtain]
    cases found : stock.registry.lookup identity with
    | some m =>
      obtain ⟨i, known, rfl⟩ := Registry.get?_lookup found
      rw [(supplied.offers stocked known).fetch_eq]
      exact .ok trivial
    | none =>
      dsimp only
      rw [load_checked, steady, Supply.fetch]
      cases (supply.hand identity).checked identity with
      | ok _ => exact .ok trivial
      | error _ => exact .error rfl
  exact (alike.yielded (fun _ => True) yields_obtain).mono (fun _ _ same => same)
    fun _ _ _ held => held.2

theorem answers_ask : Answers supply Eq (ask supply.resolver loader referrer specifier) stock
    (supply.answer referrer specifier)
    fun identity d r => ∃ i, r.get? d.2 = some i ∧ i.identity = identity := by
  unfold ask Supply.answer
  refine answers_bind (fun _ => True) yields_resolve answers_resolve
    fun expected identity between _ _ _ _ same => ?_
  subst same
  exact answers_bind (fun _ => True) yields_obtain (answers_obtain steady)
    fun _ m last _ _ _ _ held => answers_pure held

theorem answers_expand (known : stock.registry.get? m = some i) :
    Answers supply Eq (expand supply.resolver loader m) stock (supply.expand i.identity)
      fun asked dependencies r => r.Lists asked (dependencies.map (·.2)) := by
  intro stocked supplied
  refine ⟨(settles_expand steady known stocked supplied).1, ?_⟩
  unfold expand
  rw [outcome_bind, outcome_instanceOf, known]
  dsimp only
  cases resolved : i.dependencies with
  | some dependencies =>
    obtain ⟨asked, expands, lists⟩ := supplied.expand_eq stocked known resolved
    rw [expands]
    exact .ok lists
  | none =>
    have expands : supply.expand i.identity =
        i.record.requested.mapM (supply.answer i.identity) >>= pure := by
      rw [bind_pure, Supply.expand, (supplied.offers stocked known).fetch_eq]
      rfl
    have asks : Answers supply Eq (i.record.requested.mapM (ask supply.resolver loader i.identity))
        stock (i.record.requested.mapM (supply.answer i.identity))
        fun asked found r => List.Forall₂ (fun identity (d : String × ModuleId) =>
          ∃ j, r.get? d.2 = some j ∧ j.identity = identity) asked found :=
      answers_mapM (fun _ => True) _ _
        (fun _ _ _ _ => yields_ask.mono (fun _ held => held) fun _ _ _ => trivial)
        (fun _ _ _ _ => answers_ask steady) fun identity d r r' ⟨j, there, named⟩ grows => by
          obtain ⟨_, there', _⟩ := grows.kept d.2 j there
          exact ⟨_, there', named⟩
    obtain ⟨_, alike⟩ := asks stocked supplied
    have same : (i.record.requested.mapM fun specifier => do
        let identity ← resolve supply.resolver specifier (some i.identity)
        return (specifier, ← obtain loader identity)) =
          i.record.requested.mapM (ask supply.resolver loader i.identity) := rfl
    dsimp only
    rw [expands, same, outcome_bind]
    generalize (i.record.requested.mapM (ask supply.resolver loader i.identity)).outcome stock =
      ended at alike ⊢
    generalize i.record.requested.mapM (supply.answer i.identity) = wanted at alike ⊢
    obtain ⟨result, between⟩ := ended
    cases alike with
    | error same => exact .error same
    | ok each =>
      -- What is kept for the module does not change what others are called.
      exact .ok ((lists_of_each each).grows (Registry.grows_setDependencies between.registry m _))

/-! ### Many at a time -/

/-- Beside others a module is expanded as it is alone, and a crash is told as a failure. -/
theorem answers_expandBeside {concurrency : Nat} (several : 1 < concurrency)
    (known : stock.registry.get? m = some i) :
    Answers supply (fun _ _ => False) (expandBeside supply.resolver loader m) stock
      (.ok (supply.expand i.identity)) fun expected result r =>
        Alike (Stop.ComesTo concurrency)
          (fun asked dependencies => r.Lists asked (dependencies.map (·.2))) expected result := by
  intro stocked supplied
  obtain ⟨supplied', alike⟩ := answers_expand steady known stocked supplied
  unfold expandBeside
  rw [outcome_bind]
  have tried : (expand supply.resolver loader m).attempt.outcome stock =
      (.ok ((expand supply.resolver loader m).outcome stock).1,
        ((expand supply.resolver loader m).outcome stock).2) := rfl
  rw [tried]
  generalize (expand supply.resolver loader m).outcome stock = ended at supplied' alike ⊢
  generalize supply.expand i.identity = wanted at alike ⊢
  obtain ⟨result, between⟩ := ended
  cases alike with
  | ok lists => exact ⟨supplied', .ok (.ok lists)⟩
  | @error expected reason same =>
    subst same
    cases expected with
    | failed e => exact ⟨supplied', .ok (.error (.inl rfl))⟩
    | crashed => exact ⟨supplied', .ok (.error (.inr ⟨several, rfl, _, rfl⟩))⟩

omit steady in
theorem outcome_liftM (results : List (Except Stop γ)) (stock : Stock κ ℓ) :
    (results.mapM fun result => (liftM result : Loads κ ℓ γ)).outcome stock =
      (results.mapM id, stock) := by
  induction results with
  | nil => rfl
  | cons result rest ih =>
    rw [List.mapM_cons, List.mapM_cons, outcome_bind]
    cases result with
    | error reason => rfl
    | ok a =>
      have here : (liftM (Except.ok a : Except Stop γ) : Loads κ ℓ γ).outcome stock = (.ok a, stock) :=
        rfl
      rw [here]
      dsimp only
      rw [outcome_bind, ih]
      cases rest.mapM id <;> rfl

section Round

variable {concurrency : Nat} {round piece : List ModuleId}

omit steady in
/-- Modules that are registered keep their identities while others are loaded. -/
theorem known_later {between : Stock κ ℓ} (registered : ∃ i, stock.registry.get? m = some i)
    (grows : stock.registry.Grows may between.registry) :
    ∃ i, between.registry.get? m = some i ∧ i.identity = stock.registry.identityOf m := by
  obtain ⟨i, known⟩ := grows.registered registered
  exact ⟨i, known, by rw [← grows.identityOf registered, Registry.identityOf_eq known]⟩

/-- A piece of a round stops for the reason that is first in its order, though all its
modules are expanded before. -/
theorem answers_piece (several : 1 < concurrency)
    (registered : ∀ m ∈ piece, ∃ i, stock.registry.get? m = some i) :
    Answers supply (Stop.ComesTo concurrency) (do
        let results ← piece.mapM (expandBeside supply.resolver loader)
        results.mapM fun result => (liftM result : Loads κ ℓ Dependencies)) stock
      ((piece.map stock.registry.identityOf).mapM supply.expand) fun asked expanded r =>
        r.ListsEach asked expanded := by
  have tried : Answers supply (fun _ _ => False)
      (piece.mapM (expandBeside supply.resolver loader)) stock
      (piece.mapM fun m => .ok (supply.expand (stock.registry.identityOf m)))
      fun wanted results r => List.Forall₂ (fun expected result =>
        Alike (Stop.ComesTo concurrency)
          (fun asked dependencies => r.Lists asked (dependencies.map (·.2))) expected result)
        wanted results := by
    refine answers_mapM (fun _ => True) _ piece
      (fun m _ _ _ => yields_expandBeside.mono (fun _ _ => trivial) fun _ _ _ => trivial)
      (fun m member between grows => ?_) fun _ _ _ _ alike grows =>
        alike.mono (fun _ _ same => same) fun _ _ lists => lists.grows grows
    obtain ⟨i, known, identity⟩ := known_later (registered m member) grows
    rw [← identity]
    exact answers_expandBeside steady several known
  have wanted : (piece.mapM fun m => (Except.ok (supply.expand (stock.registry.identityOf m)) :
      Except Stop (Except Stop (List String)))) =
        .ok (piece.map fun m => supply.expand (stock.registry.identityOf m)) := List.mapM_pure
  intro stocked supplied
  obtain ⟨supplied', alike⟩ := tried stocked supplied
  rw [outcome_bind]
  rw [wanted] at alike
  generalize (piece.mapM (expandBeside supply.resolver loader)).outcome stock = ended
    at supplied' alike ⊢
  obtain ⟨result, between⟩ := ended
  cases alike with
  | ok each =>
    have first := alike_mapM each
    rw [List.mapM_map] at first
    dsimp only
    rw [outcome_liftM, List.mapM_map]
    exact ⟨supplied', first⟩

/-- A round stops for the reason that is first in its order, however many of its modules
are expanded at a time. -/
theorem answers_expandAll (registered : ∀ m ∈ round, ∃ i, stock.registry.get? m = some i) :
    Answers supply (Stop.ComesTo concurrency)
      (expandAll supply.resolver loader concurrency round) stock
      ((round.map stock.registry.identityOf).mapM supply.expand) fun asked expanded r =>
        r.ListsEach asked expanded := by
  unfold expandAll
  split
  · rw [List.mapM_map]
    have each : Answers supply Eq (round.mapM (Loads.expand supply.resolver loader)) stock
        (round.mapM (supply.expand ∘ stock.registry.identityOf)) fun asked expanded r =>
          r.ListsEach asked expanded := by
      refine answers_mapM (fun _ => True) _ round
        (fun m _ _ _ => yields_expand.mono (fun _ _ => trivial) fun _ _ _ => trivial)
        (fun m member between grows => ?_) fun _ _ _ _ lists grows => lists.grows grows
      obtain ⟨i, known, identity⟩ := known_later (registered m member) grows
      rw [Function.comp_apply, ← identity]
      exact answers_expand steady known
    exact each.mono (fun _ _ same => .inl same.symm) fun _ _ _ lists => lists
  · next many =>
    have several : 1 < concurrency := by
      by_contra few
      simp [Nat.le_of_not_lt few] at many
    have parts : (round.map stock.registry.identityOf).mapM supply.expand = (do
        let asked ← (pieces (concurrency - 1) round).mapM fun piece =>
          (piece.map stock.registry.identityOf).mapM supply.expand
        return asked.flatten) := by
      have whole := mapM_flatten (supply.expand ∘ stock.registry.identityOf)
        (pieces (concurrency - 1) round)
      rw [pieces_flatten] at whole
      simpa only [List.mapM_map] using whole
    rw [parts]
    have each : ∀ piece ∈ pieces (concurrency - 1) round, ∀ between : Stock κ ℓ,
        stock.registry.Grows (fun _ => True) between.registry →
        Answers supply (Stop.ComesTo concurrency) (do
          let results ← piece.mapM (expandBeside supply.resolver loader)
          results.mapM fun result => (liftM result : Loads κ ℓ Dependencies)) between
          ((piece.map stock.registry.identityOf).mapM supply.expand)
          fun asked expanded r => r.ListsEach asked expanded := by
      intro piece member between grows
      have inside := fun m held => registered m (mem_of_piece member held)
      rw [← List.map_congr_left fun m held => grows.identityOf (inside m held)]
      exact answers_piece steady several fun m held => grows.registered (inside m held)
    exact answers_bind _ (yields_mapM _ yields_pieces fun _ _ _ _ _ _ => trivial)
      (answers_mapM _ _ _ yields_pieces each fun _ _ _ _ lists => lists.grows)
      fun _ _ _ _ _ _ _ lists => answers_pure (forall₂_flatten lists)

end Round

end Loading

end Loads

/-! ## Rounds -/

namespace ModuleGraph

open Loads Growth

variable {supply : Supply κ} {loader : Loader κ ℓ} {limits : BuildLimits} {graph : ModuleGraph}
  {round : List ModuleId} {stock : Stock κ ℓ} {known asked : List String}
  (steady : ∀ identity source, (loader identity source).1 = supply.hand identity)

/-- What the members of a round ask for is what they depend on. -/
private theorem lists_targets {r : Registry κ} {expanded : List Dependencies}
    {asked : List (List String)}
    (each : List.Forall₂ (fun m d => r.Resolved m d) round expanded)
    (lists : r.ListsEach asked expanded) : r.Lists asked.flatten (round.flatMap r.targets) := by
  induction each generalizing asked with
  | nil =>
    cases lists
    exact ⟨by simp, rfl⟩
  | cons head _ ih =>
    cases lists with
    | cons first rest =>
      rw [List.flatMap_cons, List.flatten_cons, head.targets]
      exact first.append (ih rest)

include steady

/-- A round comes to what it comes to without a registry. -/
theorem answers_advance (distinct : graph.modules.Nodup) (inside : ∀ m ∈ round, m ∈ graph.modules)
    (size : graph.size ≤ limits.room) (lists : stock.registry.Lists known graph.modules)
    (asking : stock.registry.Lists asked round) :
    Answers supply (Stop.ComesTo limits.concurrency)
      (advance supply.resolver loader limits graph round) stock
      (supply.advance limits.maxModules known asked) fun all growth r =>
        r.Lists all growth.graph.modules := by
  unfold advance Supply.advance
  rw [← asking.identities]
  refine answers_bind _ (yields_expandAll) (answers_expandAll steady asking.registered)
    fun expectations expanded between grows stocked supplied each listed => ?_
  have targets := lists_targets each listed
  have all := ((lists.grows grows).append targets).eraseDups supplied
  have sources : ∀ edge ∈ round.zip expanded, edge.1 ∈ graph.modules :=
    fun edge member => inside _ (sources_of_zip edge member)
  have strokes := targets_strokesOf each
  have length := congrArg List.length all.identities
  rw [List.length_map] at length
  intro _ _
  rcases connectAll_draws between limits.maxModules distinct sources with
    ⟨growth, ended, sketched⟩ | ⟨reason, ended, blocked, why⟩
  · rw [ended]
    have modules := sketched.modules
    rw [strokes] at modules
    have room : ¬ max limits.maxModules 1 < (known ++ expectations.flatten).eraseDups.length := by
      rw [← length, ← modules, ← size_eq]
      exact Nat.not_lt.mpr (sketched.size size)
    rw [if_neg room]
    refine ⟨supplied, .ok ?_⟩
    show between.registry.Lists _ growth.graph.modules
    rw [modules]
    exact all
  · rw [ended]
    have registered : ¬ ∃ stroke ∈ strokesOf (round.zip expanded),
        between.registry.get? stroke.2 = none := by
      rintro ⟨stroke, member, absent⟩
      obtain ⟨i, there⟩ := targets.registered stroke.2 (strokes ▸ List.mem_map_of_mem member)
      rw [absent] at there
      cases there
    have large := blocked.resolve_left registered
    rw [strokes, length] at large
    rw [if_pos large]
    exact ⟨supplied, .error (.inl (why.resolve_left registered))⟩

/-- Round by round a graph grows as it does without a registry. -/
theorem answers_grow (bound : Nat) (distinct : graph.modules.Nodup)
    (inside : ∀ m ∈ round, m ∈ graph.modules) (size : graph.size ≤ limits.room)
    (lists : stock.registry.Lists known graph.modules) (asking : stock.registry.Lists asked round) :
    Answers supply (Stop.ComesTo limits.concurrency)
      (grow supply.resolver loader limits bound graph round) stock
      (supply.outline limits.maxModules bound known asked) fun identities g r =>
        r.Lists identities g.modules := by
  induction bound generalizing graph round stock known asked with
  | zero =>
    have same := asking.identities
    cases round with
    | nil =>
      cases same
      rw [grow_nil]
      exact answers_pure lists
    | cons m rest =>
      cases same
      exact answers_throw (.inl rfl)
  | succ bound ih =>
    by_cases nonempty : round = []
    · subst nonempty
      cases asking.identities
      rw [grow_nil]
      exact answers_pure lists
    have outlines : supply.outline limits.maxModules (bound + 1) known asked =
        supply.advance limits.maxModules known asked >>= fun all =>
          supply.outline limits.maxModules bound all (all.drop known.length) := by
      rw [← asking.identities]
      obtain ⟨m, rest, rfl⟩ := List.exists_cons_of_ne_nil nonempty
      rfl
    rw [grow_eq nonempty, outlines]
    refine answers_bind _ (yields_advance distinct inside)
      (answers_advance steady distinct inside size lists asking)
      fun all growth between _ _ _ ⟨found, each, sketched⟩ listed => ?_
    have modules : ∀ m ∈ growth.found, m ∈ growth.graph.modules := fun m member =>
      sketched.found ▸ List.mem_append_right _ member
    refine ih (sketched.modules ▸ nodup_eraseDups _) modules (sketched.size size) listed
      ⟨fun m member => listed.registered m (modules m member), ?_⟩
    have counted := congrArg List.length lists.identities
    rw [List.length_map] at counted
    rw [← listed.identities, sketched.found, List.map_append, ← counted,
      List.drop_left' (List.length_map _)]

/-- An entry is found, and its record is there, or it is not. -/
theorem answers_opening {entry : String} :
    Answers supply Eq (opening supply.resolver loader entry) stock (do
        let start ← supply.meaning entry none
        let _ ← supply.fetch start
        return start) fun start g r => r.Lists [start] g.modules := by
  unfold opening
  refine answers_bind (fun _ => True) yields_resolve answers_resolve
    fun start identity _ _ _ _ _ same => ?_
  subst same
  refine answers_bind (fun _ => True) yields_obtain (answers_obtain steady)
    fun _ m between _ _ _ _ ⟨i, known, named⟩ => ?_
  intro _ supplied
  rw [outcome_bind, outcome_instanceOf, known]
  refine ⟨supplied, .ok ⟨?_, ?_⟩⟩
  · exact List.forall_mem_singleton.mpr ⟨i, known⟩
  · exact congrArg (fun name => [name]) ((Registry.identityOf_eq known).trans named)

/-- A build comes to what it comes to without a registry. -/
theorem answers_build (limits : BuildLimits) (entry : String) (stock : Stock κ ℓ) :
    Answers supply (Stop.ComesTo limits.concurrency)
      (build supply.resolver loader limits entry) stock
      (supply.verdict limits.maxModules entry) fun identities g r =>
        r.Lists identities g.modules := by
  have parts : supply.verdict limits.maxModules entry = (do
      let start ← supply.meaning entry none
      let _ ← supply.fetch start
      return start) >>= fun start =>
        supply.outline limits.maxModules (limits.maxModules + 1) [start] [start] := by
    simp only [bind_assoc, pure_bind]
    rfl
  have opens : Answers supply (Stop.ComesTo limits.concurrency)
      (opening supply.resolver loader entry) stock _ fun start g r => r.Lists [start] g.modules :=
    (answers_opening steady).mono (fun _ _ same => .inl same.symm) fun _ _ _ lists => lists
  rw [build_eq, parts]
  refine answers_bind _ yields_opening opens fun start graph between _ _ _ opened lists => ?_
  obtain ⟨i, known, same, _⟩ := opened
  have modules : graph.modules = [graph.entry] := by rw [same]; rfl
  exact answers_grow steady _ (by simp [modules]) (fun _ member => member)
    (by rw [size_eq, modules]; exact limits.one_le_room) lists lists

end ModuleGraph
end MixedModules
