import MixedModules.Proofs.Graph.Rounds

/-! Building from a supply that does not change.

A build that stops does so because something that its entry reaches is missing, or
because there is too much of it. Either way the registry holds only what was handed
over. -/
namespace MixedModules

variable {κ ℓ : Type}

namespace Loads

variable {α β : Type} {supply : Supply κ} {blame : Prop} {may : ModuleId → Prop}
  {stock : Stock κ ℓ} {post : α → Prop} {after : β → Prop} {known : α → Registry κ → Prop}

/-- From what was supplied the computation leads to what is supplied, and if it stops,
there is something to blame. -/
def Settles (supply : Supply κ) (blame : Prop) (x : Loads κ ℓ α) (stock : Stock κ ℓ)
    (post : α → Prop) : Prop :=
  stock.registry.Stocked → stock.registry.SuppliedBy supply →
    (x.outcome stock).2.registry.SuppliedBy supply ∧ match (x.outcome stock).1 with
      | .ok a => post a
      | .error _ => blame

theorem settles_pure {a : α} (holds : post a) :
    Settles supply blame (pure a : Loads κ ℓ α) stock post :=
  fun _ supplied => ⟨supplied, holds⟩

theorem settles_throw {reason : Stop} (guilty : blame) :
    Settles supply blame (throw reason : Loads κ ℓ α) stock post :=
  fun _ supplied => ⟨supplied, guilty⟩

/-- What a first part gives is known from the registry it leaves behind. -/
theorem settles_bind (may : ModuleId → Prop) {x : Loads κ ℓ α} {f : α → Loads κ ℓ β}
    (yields : Yields may x stock known)
    (first : Settles supply blame x stock post)
    (next : ∀ a between, stock.registry.Grows may between.registry → between.registry.Stocked →
      between.registry.SuppliedBy supply → known a between.registry → post a →
      Settles supply blame (f a) between after) :
    Settles supply blame (x >>= f) stock after := by
  intro stocked supplied
  obtain ⟨grows, stocked', holds⟩ := yields stocked
  obtain ⟨supplied', ends⟩ := first stocked supplied
  rw [outcome_bind]
  rcases result : x.outcome stock with ⟨reason | a, between⟩
  · rw [result] at supplied' ends
    exact ⟨supplied', ends⟩
  · rw [result] at grows stocked' holds supplied' ends
    exact next a between grows stocked' supplied' (holds a rfl) ends stocked' supplied'

theorem Settles.mono {x : Loads κ ℓ α} {other : Prop} {weaker : α → Prop}
    (settles : Settles supply blame x stock post) (worse : blame → other)
    (implies : ∀ a, post a → weaker a) : Settles supply other x stock weaker := by
  intro stocked supplied
  obtain ⟨supplied', ends⟩ := settles stocked supplied
  refine ⟨supplied', ?_⟩
  cases result : (x.outcome stock).1 with
  | error reason =>
    rw [result] at ends
    exact worse ends
  | ok a =>
    rw [result] at ends
    exact implies a ends

theorem settles_get : Settles supply blame (get : Loads κ ℓ (Stock κ ℓ)) stock (· = stock) :=
  fun _ supplied => ⟨supplied, rfl⟩

theorem settles_set {next : Stock κ ℓ}
    (supplied : stock.registry.SuppliedBy supply → next.registry.SuppliedBy supply) :
    Settles supply blame (set next : Loads κ ℓ PUnit) stock fun _ => True :=
  fun _ held => ⟨supplied held, trivial⟩

/-- A failure that others go on after keeps its blame. -/
theorem settles_attempt {x : Loads κ ℓ α} (settles : Settles supply blame x stock post) :
    Settles supply False x.attempt stock fun result => ∀ reason, result = .error reason → blame := by
  intro stocked supplied
  obtain ⟨supplied', ends⟩ := settles stocked supplied
  refine ⟨supplied', fun reason same => ?_⟩
  have stopped : (x.outcome stock).1 = .error reason := same
  rwa [stopped] at ends

theorem settles_liftM {result : Except Stop α} (guilty : ∀ reason, result = .error reason → blame) :
    Settles supply blame (liftM result : Loads κ ℓ α) stock fun _ => True := by
  cases result with
  | error reason => exact settles_throw (guilty reason rfl)
  | ok a => exact settles_pure trivial

theorem settles_mapM (after : β → Prop) {f : α → Loads κ ℓ β}
    {post : α → β → Registry κ → Prop} (xs : List α)
    (yields : ∀ a ∈ xs, ∀ between, stock.registry.Grows may between.registry →
      Yields may (f a) between (post a))
    (each : ∀ a ∈ xs, ∀ between, stock.registry.Grows may between.registry →
      Settles supply blame (f a) between after)
    (lasting : ∀ a b r r', post a b r → r.Grows may r' → post a b r') :
    Settles supply blame (xs.mapM f) stock fun bs => ∀ b ∈ bs, after b := by
  induction xs generalizing stock with
  | nil =>
    rw [List.mapM_nil]
    exact settles_pure (by simp)
  | cons a rest ih =>
    rw [List.mapM_cons]
    refine settles_bind _ (yields a List.mem_cons_self stock (.refl _))
      (each a List.mem_cons_self stock (.refl _)) fun b between grows _ _ _ holds => ?_
    have later := yields_mapM rest (fun other member last further =>
      yields other (List.mem_cons_of_mem _ member) last (grows.trans further)) lasting
    have others := ih (fun other member last further =>
        yields other (List.mem_cons_of_mem _ member) last (grows.trans further))
      fun other member last further =>
        each other (List.mem_cons_of_mem _ member) last (grows.trans further)
    refine settles_bind _ later others fun bs _ _ _ _ _ rest => settles_pure ?_
    exact List.forall_mem_cons.mpr ⟨holds, rest⟩

/-! ### Loading -/

section Loading

variable {loader : Loader κ ℓ} {identity specifier : String} {referrer : Option String}
  {m : ModuleId} {i : Instance κ}
  (steady : ∀ identity source, (loader identity source).1 = supply.hand identity)

include steady

theorem settles_load (absent : stock.registry.lookup identity = none) :
    Settles supply (¬ supply.Complete identity) (load loader identity) stock fun _ => True := by
  have incomplete : ∀ loaded, (∀ record, loaded = .record record → record.validate ≠ .ok ()) →
      supply.hand identity = loaded → ¬ supply.Complete identity := by
    rintro loaded unfit rfl ⟨record, ⟨handed, passed⟩, _⟩
    exact unfit record handed passed
  unfold load
  refine settles_bind (fun _ => False) yields_get settles_get
    fun before between _ _ supplied ⟨same, here⟩ _ => ?_
  subst same
  have handed := steady identity before.source
  rcases result : loader identity before.source with ⟨loaded, source⟩
  rw [result] at handed
  have noted : Yields (fun _ => False) (set (Stock.mk before.registry source) : Loads κ ℓ PUnit)
      between fun _ r => r = before.registry :=
    yields_set (here ▸ .refl _) (fun stocked => here ▸ stocked) rfl
  refine settles_bind _ noted (settles_set fun held => here ▸ held) fun _ last _ _ supplied' same _ => ?_
  cases loaded with
  | unfetched message => exact settles_throw (incomplete _ (by simp) handed.symm)
  | unparsed message => exact settles_throw (incomplete _ (by simp) handed.symm)
  | crashed => exact settles_throw (incomplete _ (by simp) handed.symm)
  | record record =>
    dsimp only
    cases check : record.validate with
    | error fault =>
      refine settles_throw (incomplete _ (fun other equal => ?_) handed.symm)
      cases equal
      simp [check]
    | ok passed =>
      have fits : (before.registry.register identity record).2.SuppliedBy supply :=
        (here ▸ supplied).register absent handed.symm
      have grows : before.registry.Grows (fun _ => False)
          (before.registry.register identity record).2 :=
        Registry.grows_register before.registry identity record
      have stored : Yields (fun _ => False)
          (set (Stock.mk (before.registry.register identity record).2 source) : Loads κ ℓ PUnit) last
          fun _ _ => True :=
        yields_set (same ▸ grows) (fun stocked => (same ▸ stocked).register check) trivial
      exact settles_bind _ stored (settles_set fun _ => fits) fun _ _ _ _ _ _ _ => settles_pure trivial

theorem settles_obtain :
    Settles supply (¬ supply.Complete identity) (obtain loader identity) stock fun _ => True := by
  unfold obtain
  refine settles_bind (fun _ => False) yields_get settles_get
    fun before between _ _ _ ⟨same, here⟩ _ => ?_
  subst same
  cases found : before.registry.lookup identity with
  | none => exact settles_load steady (here ▸ found)
  | some m => exact settles_pure trivial

omit steady in
theorem settles_instanceOf (known : stock.registry.get? m = some i) :
    Settles supply False (instanceOf m : Loads κ ℓ (Instance κ)) stock (· = i) := by
  intro _ supplied
  rw [outcome_instanceOf, known]
  exact ⟨supplied, rfl⟩

omit steady in
theorem settles_resolve :
    Settles supply (∀ identity, supply.resolver specifier referrer ≠ .ok identity)
      (resolve supply.resolver specifier referrer : Loads κ ℓ String) stock
      fun identity => supply.resolver specifier referrer = .ok identity := by
  unfold resolve
  cases resolves : supply.resolver specifier referrer with
  | ok identity => exact settles_pure rfl
  | error reason => exact settles_throw (by simp)

/-- Resolves a specifier and loads what it means, as an expansion does for each of them. -/
def ask (resolver : Specifier.Resolver) (loader : Loader κ ℓ) (referrer specifier : String) :
    Loads κ ℓ (String × ModuleId) := do
  let identity ← resolve resolver specifier (some referrer)
  return (specifier, ← obtain loader identity)

omit steady in
theorem yields_ask {referrer : String} :
    Yields may (ask supply.resolver loader referrer specifier) stock fun d r =>
      d.1 = specifier ∧ ∃ j, r.get? d.2 = some j ∧
        supply.resolver specifier (some referrer) = .ok j.identity := by
  refine yields_bind yields_resolved fun identity between _ _ answer => ?_
  refine yields_bind yields_obtain fun target last _ _ ⟨j, known, named⟩ => yields_pure ?_
  exact ⟨rfl, j, known, named ▸ answer⟩

theorem settles_ask {referrer : String} {record : Record κ}
    (offers : supply.Offers referrer record) (member : specifier ∈ record.requested) :
    Settles supply (supply.Lacks referrer) (ask supply.resolver loader referrer specifier) stock
      fun _ => True := by
  have unresolved : (∀ identity, supply.resolver specifier (some referrer) ≠ .ok identity) →
      supply.Lacks referrer := by
    refine fun never => ⟨referrer, .refl, ?_⟩
    rintro ⟨other, ⟨handed, _⟩, all⟩
    cases handed.symm.trans offers.1
    obtain ⟨target, answer⟩ := all specifier member
    exact never target answer
  refine settles_bind (fun _ => False) yields_resolve (settles_resolve.mono unresolved
    fun _ answer => answer) fun identity between _ _ _ _ answer => ?_
  refine settles_bind (fun _ => False) yields_obtain ((settles_obtain steady).mono
    (fun incomplete => ?_) fun _ held => held) fun _ _ _ _ _ _ _ => settles_pure trivial
  exact ⟨identity, .single (Supply.mem_asks offers.1 member answer), incomplete⟩

omit steady in
theorem mem_of_piece {size : Nat} {xs piece : List α} {x : α} (member : piece ∈ pieces size xs)
    (inside : x ∈ piece) : x ∈ xs := by
  rw [← pieces_flatten size xs]
  exact List.mem_flatten_of_mem member inside

/-- If an expansion stops, something is missing that its module reaches. -/
theorem settles_expand (known : stock.registry.get? m = some i) :
    Settles supply (supply.Lacks i.identity) (expand supply.resolver loader m) stock
      fun _ => True := by
  intro stocked supplied
  have offers := supplied.offers stocked known
  revert supplied
  revert stocked
  show Settles supply (supply.Lacks i.identity) (expand supply.resolver loader m) stock fun _ => True
  unfold expand
  refine settles_bind (fun _ => False) yields_instanceOf ((settles_instanceOf known).mono
    False.elim fun _ same => same) fun j between grows _ _ known' same => ?_
  subst same
  cases resolved : j.dependencies with
  | some dependencies => exact settles_pure trivial
  | none =>
    have each : ∀ specifier ∈ j.record.requested, ∀ last : Stock κ ℓ,
        between.registry.Grows (fun _ => False) last.registry →
        Yields (fun _ => False) (ask supply.resolver loader j.identity specifier) last fun d r =>
          d.1 = specifier ∧ ∃ t, r.get? d.2 = some t ∧
            supply.resolver specifier (some j.identity) = .ok t.identity :=
      fun _ _ _ _ => yields_ask
    have lasting : ∀ (specifier : String) (d : String × ModuleId) (r r' : Registry κ),
        (d.1 = specifier ∧ ∃ t, r.get? d.2 = some t ∧
          supply.resolver specifier (some j.identity) = .ok t.identity) →
        r.Grows (fun _ => False) r' → d.1 = specifier ∧ ∃ t, r'.get? d.2 = some t ∧
          supply.resolver specifier (some j.identity) = .ok t.identity := by
      rintro specifier d r r' ⟨same, t, there, answer⟩ grows
      exact ⟨same, t, grows.unchanged not_false there, answer⟩
    have asks := yields_mapM j.record.requested each lasting
    have settled := settles_mapM (fun _ => True) j.record.requested each
      (fun specifier member last _ => settles_ask steady offers member) lasting
    refine settles_bind _ asks.grown settled fun found last _ _ supplied ⟨all, grows⟩ _ => ?_
    have answers : ∀ d ∈ found, ∃ t, last.registry.get? d.2 = some t ∧
        supply.resolver d.1 (some j.identity) = .ok t.identity := by
      intro d member
      obtain ⟨specifier, _, same, answer⟩ := exists_of_forall₂ all d member
      rwa [same]
    have kept : last.registry.get? m = some j := grows.unchanged not_false known'
    exact fun _ _ => ⟨supplied.setDependencies kept answers, trivial⟩

theorem settles_expandBeside (known : stock.registry.get? m = some i) :
    Settles supply False (expandBeside supply.resolver loader m) stock
      fun result => ∀ reason, result = .error reason → supply.Lacks i.identity := by
  unfold expandBeside
  refine settles_bind _ (yields_attempt yields_expand) (settles_attempt (settles_expand steady known))
    fun result between _ _ _ _ guilty => ?_
  split
  · exact settles_bind (fun _ => False) yields_get settles_get
      fun _ _ _ _ _ _ _ => settles_pure fun _ _ => guilty .crashed rfl
  · exact settles_pure guilty

theorem settles_piece {start : String} {piece : List ModuleId}
    (reached : stock.registry.ReachedFrom supply start piece) :
    Settles supply (supply.Lacks start) (do
      let results ← piece.mapM (expandBeside supply.resolver loader)
      results.mapM fun result => (liftM result : Loads κ ℓ Dependencies)) stock fun _ => True := by
  have tries : ∀ m ∈ piece, ∀ between : Stock κ ℓ,
      stock.registry.Grows (fun _ => True) between.registry →
      Yields (fun _ => True) (expandBeside supply.resolver loader m) between fun _ _ => True :=
    fun _ _ _ _ => yields_expandBeside.mono (fun _ _ => trivial) fun _ _ _ => trivial
  have settled : Settles supply False (piece.mapM (expandBeside supply.resolver loader)) stock _ :=
    settles_mapM (fun result => ∀ reason, result = .error reason → supply.Lacks start) piece tries
    (fun m member between grows => by
      obtain ⟨i, known, reaches⟩ := reached.grows grows m member
      exact (settles_expandBeside steady known).mono id fun result guilty reason same =>
        (guilty reason same).of_reaches reaches)
    fun _ _ _ _ held _ => held
  refine settles_bind _ (yields_mapM piece tries fun _ _ _ _ held _ => held)
    (settled.mono False.elim fun _ held => held) fun results between _ _ _ _ guilty => ?_
  have lifts : ∀ result ∈ results, ∀ last : Stock κ ℓ,
      between.registry.Grows (fun _ => True) last.registry →
      Yields (fun _ => True) (liftM result : Loads κ ℓ Dependencies) last fun _ _ => True :=
    fun _ _ _ _ => yields_liftM.mono (fun _ held => held) fun _ _ _ => trivial
  exact (settles_mapM (fun _ => True) results lifts
    (fun result member _ _ => settles_liftM (guilty result member))
    fun _ _ _ _ held _ => held).mono id fun _ _ => trivial

/-- If the expansion of a round stops, something is missing that its modules reach. -/
theorem settles_expandAll {start : String} {concurrency : Nat} {round : List ModuleId}
    (reached : stock.registry.ReachedFrom supply start round) :
    Settles supply (supply.Lacks start) (expandAll supply.resolver loader concurrency round) stock
      fun _ => True := by
  unfold expandAll
  split
  · have yields : ∀ m ∈ round, ∀ between : Stock κ ℓ,
        stock.registry.Grows (fun _ => True) between.registry →
        Yields (fun _ => True) (expand supply.resolver loader m) between fun _ _ => True :=
      fun _ _ _ _ => yields_expand.mono (fun _ _ => trivial) fun _ _ _ => trivial
    refine (settles_mapM (fun _ => True) round yields (fun m member between grows => ?_)
      fun _ _ _ _ held _ => held).mono id fun _ _ => trivial
    obtain ⟨i, known, reaches⟩ := reached.grows grows m member
    exact (settles_expand steady known).mono (.of_reaches reaches) fun _ held => held
  · have settled := settles_mapM (fun _ => True) (pieces (concurrency - 1) round) yields_pieces
      (fun piece member between grows => settles_piece steady fun m inside =>
        reached.grows grows m (mem_of_piece member inside))
      fun _ _ _ _ held _ => held
    exact settles_bind _ (yields_mapM _ yields_pieces fun _ _ _ _ held _ => held) settled
      fun _ _ _ _ _ _ _ => settles_pure trivial

end Loading

end Loads

/-! ## Rounds -/

namespace ModuleGraph

open Loads Growth

variable {supply : Supply κ} {loader : Loader κ ℓ} {limits : BuildLimits} {graph : ModuleGraph}
  {round : List ModuleId} {stock : Stock κ ℓ} {start : String}
  (steady : ∀ identity source, (loader identity source).1 = supply.hand identity)

include steady

/-- If a round stops, what is supplied does not suffice. -/
theorem settles_advance (distinct : graph.modules.Nodup) (inside : ∀ m ∈ round, m ∈ graph.modules)
    (reached : stock.registry.ReachedFrom supply start graph.modules) :
    Settles supply (¬ supply.Suffices limits.room start)
      (advance supply.resolver loader limits graph round) stock fun _ => True := by
  unfold advance
  refine settles_bind _ yields_expandAll ((settles_expandAll steady fun m member =>
    reached m (inside m member)).mono Supply.Lacks.not_suffices fun _ held => held)
    fun found between grows stocked supplied each _ _ _ => ?_
  have spread := (reached.grows grows).spread supplied stocked inside (exists_resolved each)
  have sources : ∀ edge ∈ round.zip found, edge.1 ∈ graph.modules :=
    fun edge member => inside _ (sources_of_zip edge member)
  rcases connectAll_draws between limits.maxModules distinct sources with
    ⟨growth, ended, _⟩ | ⟨reason, ended, blocked, _⟩
  · rw [ended]
    exact ⟨supplied, trivial⟩
  · rw [ended]
    refine ⟨supplied, ?_⟩
    rcases blocked with ⟨stroke, member, absent⟩ | large
    · have target : stroke.2 ∈ round.flatMap between.registry.targets := by
        rw [← targets_strokesOf each]
        exact List.mem_map_of_mem member
      obtain ⟨j, there, _⟩ := spread stroke.2 (List.mem_append_right _ target)
      rw [absent] at there
      cases there
    · rw [targets_strokesOf each] at large
      refine Registry.ReachedFrom.not_suffices (fun m member => ?_) supplied
        (nodup_eraseDups _) large
      exact spread m (List.mem_eraseDups.mp member)

/-- If a graph stops growing, what is supplied does not suffice, or the bounds were not
those of a build. -/
theorem settles_grow (bound : Nat) {expanded : List ModuleId}
    (modules : graph.modules = expanded ++ round) (distinct : graph.modules.Nodup)
    (reached : stock.registry.ReachedFrom supply start graph.modules) :
    Settles supply (¬ supply.Suffices limits.room start ∨ limits.room < graph.size ∨
        bound + expanded.length ≤ limits.maxModules)
      (grow supply.resolver loader limits bound graph round) stock fun _ => True := by
  by_cases nonempty : round = []
  · subst nonempty
    rw [grow_nil]
    exact settles_pure trivial
  have longer : expanded.length < graph.size := by
    have some := List.length_pos_iff.mpr nonempty
    rw [size_eq, modules, List.length_append]
    omega
  induction bound generalizing graph expanded round stock with
  | zero =>
    have stops : grow supply.resolver loader limits 0 graph round =
        (fail (.tooLarge limits.maxModules) : Loads κ ℓ ModuleGraph) := by
      rw [grow]
      exact nonempty
    rw [stops]
    exact settles_throw (.inr (by rw [BuildLimits.room]; omega))
  | succ bound ih =>
    have inside : ∀ m ∈ round, m ∈ graph.modules := fun m member =>
      modules ▸ List.mem_append_right _ member
    rw [grow_eq nonempty]
    refine settles_bind _ (yields_advance distinct inside)
      ((settles_advance steady distinct inside reached).mono .inl fun _ held => held)
      fun growth between grows stocked supplied advanced _ => ?_
    obtain ⟨found, each, sketched⟩ := advanced
    have reached' : between.registry.ReachedFrom supply start growth.graph.modules := by
      intro m member
      rw [sketched.modules, targets_strokesOf each, List.mem_eraseDups] at member
      exact (reached.grows grows).spread supplied stocked inside (exists_resolved each) m member
    by_cases last : growth.found = []
    · rw [last, grow_nil]
      exact settles_pure trivial
    have longer' : graph.modules.length < growth.graph.size := by
      have some := List.length_pos_iff.mpr last
      rw [size_eq, sketched.found, List.length_append]
      omega
    refine (ih sketched.found (sketched.modules ▸ nodup_eraseDups _) reached' last longer').mono ?_
      fun _ held => held
    have size : graph.size ≤ limits.room → growth.graph.size ≤ limits.room := sketched.size
    have length := size_eq graph
    rintro (lacks | large | few)
    · exact .inl lacks
    · exact .inr (.inl (by omega))
    · exact .inr (by omega)

theorem settles_opening {entry : String} :
    Settles supply (∀ e, supply.resolver entry none = .ok e → supply.Lacks e)
      (opening supply.resolver loader entry) stock fun _ => True := by
  unfold opening
  refine settles_bind (fun _ => True) yields_resolved (settles_resolve.mono
    (fun never e answer => absurd answer (never e)) fun _ answer => answer)
    fun identity _ _ _ _ answer _ => ?_
  refine settles_bind (fun _ => True) yields_obtain ((settles_obtain steady).mono
    (fun incomplete e answer' => ?_) fun _ held => held) fun m _ _ _ _ ⟨i, known, _⟩ _ => ?_
  · cases answer.symm.trans answer'
    exact ⟨identity, .refl, incomplete⟩
  · exact settles_bind (fun _ => True) yields_instanceOf
      ((settles_instanceOf known).mono False.elim fun _ held => held)
      fun _ _ _ _ _ _ _ => settles_pure trivial

/-- If a build stops, its entry has no identity, or what is supplied does not suffice. -/
theorem settles_build (limits : BuildLimits) (entry : String) (stock : Stock κ ℓ) :
    Settles supply (∀ e, supply.resolver entry none = .ok e →
        ¬ supply.Suffices limits.room e)
      (build supply.resolver loader limits entry) stock fun _ => True := by
  rw [build_eq]
  refine settles_bind _ yields_opening ((settles_opening steady).mono
    (fun lacks e answer => (lacks e answer).not_suffices) fun _ held => held)
    fun graph between _ _ supplied ⟨i, known, same, answer⟩ _ => ?_
  have modules : graph.modules = [graph.entry] := by rw [same]; rfl
  have reached : between.registry.ReachedFrom supply i.identity graph.modules := by
    intro m member
    rw [modules, List.mem_singleton] at member
    exact ⟨i, member ▸ known, .refl⟩
  refine (settles_grow steady (limits.maxModules + 1) (List.nil_append graph.modules).symm
    (by simp [modules]) reached).mono ?_ fun _ held => held
  rintro blame e answer'
  cases answer.symm.trans answer'
  rcases blame with lacks | large | few
  · exact lacks
  · have least := limits.one_le_room
    rw [size_eq, modules, List.length_singleton] at large
    omega
  · exact absurd few (by simp)

end ModuleGraph
end MixedModules
