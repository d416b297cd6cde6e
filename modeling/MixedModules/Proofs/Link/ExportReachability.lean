import Mathlib.Data.List.Perm.Subperm
import Mathlib.Data.List.ProdSigma
import Mathlib.Logic.Relation
import MixedModules.Link.Exports
import MixedModules.Proofs.Record.WellFormed

/-! What an export name stands for is what can be reached from it.

A question, a name asked of a module, leads to other questions through re-exports and
ends at a declaration of the module's own. The search keeps one list of the questions
it asked and finds nothing when one of them comes up again. That loses nothing: what
the question stands for was reported when it came up first, to a caller whose caller
is waiting still, so every end that can be reached counts exactly once. -/
namespace MixedModules.Registry
open Relation

variable {κ : Type} {r : Registry κ} {s : Store κ} {members : ModuleId → Prop}

/-- A name asked of a module. -/
abbrev Question := ModuleId × String

/-- A re-export of the name leads on to one question, the stars of a module that does
not export the name itself to one question each. -/
inductive LeadsTo (r : Registry κ) : Question → Question → Prop where
  | indirect {m target : ModuleId} {name specifier inner : String} {i : Instance κ}
      {decl : ExportDecl κ} (known : r.get? m = some i) (declared : decl ∈ i.record.exports)
      (named : decl.name = name) (source : decl.source = .indirect specifier inner)
      (resolved : i.dependency? specifier = some target) : LeadsTo r (m, name) (target, inner)
  | star {m target : ModuleId} {name specifier : String} {i : Instance κ}
      (known : r.get? m = some i) (undeclared : ∀ decl ∈ i.record.exports, decl.name ≠ name)
      (passedOn : name ≠ defaultName) (listed : specifier ∈ i.record.stars)
      (resolved : i.dependency? specifier = some target) : LeadsTo r (m, name) (target, name)

/-- A question ends where the module declares the name and does not take it from
another module. -/
def Ends (r : Registry κ) (q : Question) : Prop :=
  ∃ i, r.get? q.1 = some i ∧ ∃ decl ∈ i.record.exports, decl.name = q.2 ∧
    ∀ specifier inner, decl.source ≠ .indirect specifier inner

/-- The slot that a question gives where it ends. -/
def Gives (r : Registry κ) (s : Store κ) (q : Question) (slot : SlotId) : Prop :=
  Ends r q ∧ r.exportSlot? s q.1 q.2 = some slot

/-- Modules whose names can be resolved: each is registered with a checked record,
what it asks for is among them, and it has its slots. -/
structure Resolvable (r : Registry κ) (s : Store κ) (members : ModuleId → Prop) : Prop where
  registered : ∀ m, members m → ∃ i, r.get? m = some i
  checked : ∀ m i, members m → r.get? m = some i → i.record.validate = .ok ()
  closed : ∀ m i, members m → r.get? m = some i → ∀ specifier ∈ i.record.requested,
    ∃ target, i.dependency? specifier = some target ∧ members target
  slots : ∀ m i, members m → r.get? m = some i → ∀ decl ∈ i.record.exports,
    (∀ specifier inner, decl.source ≠ .indirect specifier inner) →
      ∃ slot, r.exportSlot? s m decl.name = some slot ∧
        (s.slot? slot).map (·.owner) = some i.identity

namespace Resolvable

theorem wellFormed (ready : Resolvable r s members) {m : ModuleId} {i : Instance κ}
    (member : members m) (known : r.get? m = some i) : i.record.WellFormed :=
  Record.wellFormed_of_validate (ready.checked m i member known)

/-- A specifier that the check lets an export use is one that was asked for. -/
theorem indirect_requested (ready : Resolvable r s members) {m : ModuleId} {i : Instance κ}
    (member : members m) (known : r.get? m = some i) {decl : ExportDecl κ}
    (declared : decl ∈ i.record.exports) {specifier inner : String}
    (source : decl.source = .indirect specifier inner) : specifier ∈ i.record.requested := by
  have fits := ready.wellFormed member known
  cases body : i.record.body with
  | script code =>
    have promise := (fits.script code body decl declared).2
    simpa [source] using promise
  | binary definitions =>
    have promise := (fits.binary definitions body).exports decl declared
    simp [Record.BinaryExportFits, source] at promise

theorem step (ready : Resolvable r s members) {p q : Question} (member : members p.1)
    (edge : LeadsTo r p q) : members q.1 := by
  cases edge with
  | indirect known declared named source resolved =>
    obtain ⟨target, found, inside⟩ := ready.closed _ _ member known _
      (ready.indirect_requested member known declared source)
    rw [resolved] at found
    cases found
    exact inside
  | star known undeclared passedOn listed resolved =>
    obtain ⟨target, found, inside⟩ := ready.closed _ _ member known _
      ((ready.wellFormed member known).stars _ listed)
    rw [resolved] at found
    cases found
    exact inside

theorem reach (ready : Resolvable r s members) {p q : Question} (member : members p.1)
    (path : ReflTransGen (LeadsTo r) p q) : members q.1 := by
  induction path with
  | refl => exact member
  | tail _ edge ih => exact ready.step ih edge

/-- Where a question ends there is a slot, and the module asked owns it. -/
theorem gives_of_ends (ready : Resolvable r s members) {q : Question} (member : members q.1)
    (ends : Ends r q) : ∃ slot, Gives r s q slot := by
  obtain ⟨i, known, decl, declared, named, own⟩ := ends
  obtain ⟨slot, found, _⟩ := ready.slots _ i member known decl declared own
  exact ⟨slot, ⟨i, known, decl, declared, named, own⟩, named ▸ found⟩

theorem owner_of_gives (ready : Resolvable r s members) {q : Question} {slot : SlotId}
    (member : members q.1) (gives : Gives r s q slot) :
    ∃ i, r.get? q.1 = some i ∧ (s.slot? slot).map (·.owner) = some i.identity := by
  obtain ⟨⟨i, known, decl, declared, named, own⟩, found⟩ := gives
  obtain ⟨other, same, owner⟩ := ready.slots _ i member known decl declared own
  rw [named, found] at same
  cases same
  exact ⟨i, known, owner⟩

end Resolvable

/-! ## What a part of a search has done -/

/-- A question asked between two moments of a search. -/
def Fresh (before after : Asked) (q : Question) : Prop := q ∈ after ∧ q ∉ before

/-- Every question that a fresh one leads to was asked too. -/
def Explored (r : Registry κ) (before after : Asked) : Prop :=
  ∀ q, Fresh before after q → ∀ next, LeadsTo r q next → next ∈ after

/-- An answer tells of all slots that fresh questions give. Only an ambiguity may
leave questions unasked, since two slots it cannot have are enough for it. -/
def Accounts (r : Registry κ) (s : Store κ) (within : Question → Prop) (before after : Asked) :
    Resolution → Prop
  | .ambiguous => ∃ p q one other, within p ∧ within q ∧ Gives r s p one ∧ Gives r s q other ∧
      one ≠ other
  | .notFound => Explored r before after ∧ ∀ q, Fresh before after q → ∀ slot, ¬ Gives r s q slot
  | .found owner slot => Explored r before after ∧
      (∃ q, Fresh before after q ∧ q.1 = owner ∧ Gives r s q slot) ∧
      ∀ q, Fresh before after q → ∀ other, Gives r s q other → other = slot

/-- Questions of the modules at hand, each asked once. -/
structure Proper (members : ModuleId → Prop) (names : List String) (asked : Asked) : Prop where
  once : asked.Nodup
  inside : ∀ q ∈ asked, members q.1 ∧ q.2 ∈ names

/-- Questions are never forgotten, and new ones stay within reach. -/
structure Extends (members : ModuleId → Prop) (names : List String) (within : Question → Prop)
    (before after : Asked) : Prop where
  kept : ∀ q ∈ before, q ∈ after
  proper : Proper members names after
  longer : before.length ≤ after.length
  reached : ∀ q, Fresh before after q → within q

section Parts

variable {names : List String} {within : Question → Prop} {first second third : Asked}

theorem Extends.refl (proper : Proper members names first) :
    Extends members names within first first :=
  ⟨fun _ held => held, proper, Nat.le_refl _, fun _ fresh => absurd fresh.1 fresh.2⟩

theorem Extends.trans (left : Extends members names within first second)
    (right : Extends members names within second third) :
    Extends members names within first third := by
  refine ⟨fun q held => right.kept q (left.kept q held), right.proper,
    Nat.le_trans left.longer right.longer, fun q fresh => ?_⟩
  by_cases early : q ∈ second
  · exact left.reached q ⟨early, fresh.2⟩
  · exact right.reached q ⟨fresh.1, early⟩

theorem Explored.trans (left : Explored r first second) (right : Explored r second third)
    (kept : ∀ q ∈ second, q ∈ third) : Explored r first third := by
  intro q fresh next edge
  by_cases early : q ∈ second
  · exact kept next (left q ⟨early, fresh.2⟩ next edge)
  · exact right q ⟨fresh.1, early⟩ next edge

/-- Two parts of a search that found no more than one slot between them. -/
theorem Accounts.join {whole left right : Resolution}
    (found : Accounts r s within first second left)
    (more : Accounts r s within second third right)
    (kept : ∀ q ∈ second, q ∈ third) (old : ∀ q ∈ first, q ∈ second)
    (sum : (left = .notFound ∧ whole = right ∧ right ≠ .ambiguous) ∨
      (∃ owner slot, left = .found owner slot ∧ whole = left ∧
        (right = .notFound ∨ ∃ other, right = .found other slot))) :
    Accounts r s within first third whole := by
  rcases sum with ⟨rfl, rfl, settled⟩ | ⟨owner, slot, rfl, rfl, rest⟩
  · obtain ⟨explored, empty⟩ := found
    cases whole with
    | ambiguous => exact absurd rfl settled
    | notFound =>
      refine ⟨explored.trans more.1 kept, fun q fresh slot gives => ?_⟩
      by_cases early : q ∈ second
      · exact empty q ⟨early, fresh.2⟩ slot gives
      · exact more.2 q ⟨fresh.1, early⟩ slot gives
    | found owner slot =>
      obtain ⟨exploredMore, ⟨q, fresh, owned, gives⟩, only⟩ := more
      refine ⟨explored.trans exploredMore kept,
        ⟨q, ⟨fresh.1, fun held => fresh.2 (old q held)⟩, owned, gives⟩, fun p late other given => ?_⟩
      by_cases early : p ∈ second
      · exact absurd given (empty p ⟨early, late.2⟩ other)
      · exact only p ⟨late.1, early⟩ other given
  · obtain ⟨explored, ⟨q, fresh, owned, gives⟩, only⟩ := found
    have later : Explored r second third ∧
        ∀ p, Fresh second third p → ∀ other, Gives r s p other → other = slot := by
      rcases rest with rfl | ⟨other, rfl⟩
      · exact ⟨more.1, fun p late other given => absurd given (more.2 p late other)⟩
      · exact ⟨more.1, more.2.2⟩
    refine ⟨explored.trans later.1 kept, ⟨q, ⟨kept q fresh.1, fresh.2⟩, owned, gives⟩,
      fun p late other given => ?_⟩
    by_cases early : p ∈ second
    · exact only p ⟨early, late.2⟩ other given
    · exact later.2 p ⟨late.1, early⟩ other given

end Parts

/-! ## The search -/

/-- The answer before any more modules of a star are asked. -/
def ofFound : Option (ModuleId × SlotId) → Resolution
  | none => .notFound
  | some (owner, slot) => .found owner slot

/-- What one search must do for the questions it is asked. -/
def Answers (r : Registry κ) (s : Store κ) (members : ModuleId → Prop) (names : List String)
    (within : Question → Prop) (q : Question) (before : Asked) (result : Resolution × Asked) :
    Prop :=
  Extends members names within before result.2 ∧ q ∈ result.2 ∧
    Accounts r s within before result.2 result.1

/-- What asking the modules of a star in turn must do, from `asked` on. -/
structure Merges (r : Registry κ) (s : Store κ) (members : ModuleId → Prop) (names : List String)
    (within : Question → Prop) (base asked : Asked) (name : String) (targets : List ModuleId)
    (result : Resolution × Asked) : Prop where
  grown : Extends members names within base result.2
  kept : ∀ q ∈ asked, q ∈ result.2
  met : result.1 ≠ .ambiguous → ∀ target ∈ targets, (target, name) ∈ result.2
  accounts : Accounts r s within base result.2 result.1

/-- Asking the modules of a star in turn accounts for all of them, up to an ambiguity. -/
theorem merge_accounts {names : List String} {within : Question → Prop} {name : String}
    {ask : ModuleId → Asked → Resolution × Asked} {length : Nat} {base : Asked}
    (targets : List ModuleId)
    (asks : ∀ target ∈ targets, ∀ asked, Proper members names asked → length ≤ asked.length →
      Answers r s members names within (target, name) asked (ask target asked))
    (sofar : Option (ModuleId × SlotId)) {asked : Asked} (long : length ≤ asked.length)
    (grown : Extends members names within base asked)
    (account : Accounts r s within base asked (ofFound sofar)) :
    Merges r s members names within base asked name targets
      (Resolution.merge ask sofar targets asked) := by
  induction targets generalizing sofar asked with
  | nil =>
    cases sofar with
    | none => exact ⟨grown, fun _ held => held, by simp, account⟩
    | some found => exact ⟨grown, fun _ held => held, by simp, account⟩
  | cons target rest ih =>
    obtain ⟨further, met, answer⟩ := asks target (by simp) asked grown.proper long
    have asksRest := fun other member => asks other (List.mem_cons_of_mem target member)
    have reached := grown.trans further
    have longer := Nat.le_trans long further.longer
    -- Whatever is known after this target, its own question stays among those asked.
    have goOn : ∀ {known : Option (ModuleId × SlotId)},
        Accounts r s within base (ask target asked).2 (ofFound known) →
        Merges r s members names within base asked name (target :: rest)
          (Resolution.merge ask known rest (ask target asked).2) := by
      intro known joined
      have after := ih asksRest known longer reached joined
      refine ⟨after.grown, fun q held => after.kept q (further.kept q held), fun settled => ?_,
        after.accounts⟩
      intro other member
      rcases List.mem_cons.mp member with rfl | member
      · exact after.kept _ met
      · exact after.met settled other member
    rw [Resolution.merge]
    cases found : ask target asked with
    | mk result after =>
      simp only [found] at further met answer reached longer goOn
      cases result with
      | ambiguous => exact ⟨reached, further.kept, fun settled => absurd rfl settled, answer⟩
      | notFound =>
        apply goOn
        cases sofar with
        | none => exact account.join answer further.kept grown.kept (.inl ⟨rfl, rfl, by simp⟩)
        | some held =>
          exact account.join answer further.kept grown.kept (.inr ⟨_, _, rfl, rfl, .inl rfl⟩)
      | found owner slot =>
        cases sofar with
        | none =>
          apply @goOn (some (owner, slot))
          exact account.join answer further.kept grown.kept (.inl ⟨rfl, rfl, by simp⟩)
        | some held =>
          obtain ⟨first, other⟩ := held
          by_cases same : other = slot
          · subst same
            simp only [↓reduceIte]
            apply goOn
            exact account.join answer further.kept grown.kept
              (.inr ⟨_, _, rfl, rfl, .inr ⟨_, rfl⟩⟩)
          · simp only [same, ↓reduceIte]
            obtain ⟨_, ⟨p, freshP, _, givesP⟩, _⟩ := account
            obtain ⟨_, ⟨q, freshQ, _, givesQ⟩, _⟩ := answer
            exact ⟨reached, further.kept, fun settled => absurd rfl settled, p, q, other, slot,
              grown.reached p freshP, further.reached q freshQ, givesP, givesQ, same⟩

/-- A question that gives nothing itself and whose account is that of all it leads to. -/
private theorem Accounts.pass {within : Question → Prop} {asked after : Asked} {q : Question}
    {result : Resolution} (silent : ∀ slot, ¬ Gives r s q slot)
    (onward : result ≠ .ambiguous → ∀ next, LeadsTo r q next → next ∈ after)
    (account : Accounts r s within (q :: asked) after result) :
    Accounts r s within asked after result := by
  have explored : result ≠ .ambiguous → Explored r (q :: asked) after → Explored r asked after := by
    intro settled below p new next edge
    by_cases same : p = q
    · exact onward settled next (same ▸ edge)
    · exact below p ⟨new.1, by simp [same, new.2]⟩ next edge
  cases result with
  | ambiguous => exact account
  | notFound =>
    refine ⟨explored (by simp) account.1, fun p new slot gives => ?_⟩
    by_cases same : p = q
    · exact silent slot (same ▸ gives)
    · exact account.2 p ⟨new.1, by simp [same, new.2]⟩ slot gives
  | found owner slot =>
    obtain ⟨below, ⟨p, new, owned, gives⟩, only⟩ := account
    refine ⟨explored (by simp) below, ⟨p, ⟨new.1, fun held => new.2 (by simp [held])⟩, owned, gives⟩,
      fun p' new' other given => ?_⟩
    by_cases same : p' = q
    · exact absurd (same ▸ given) (silent other)
    · exact only p' ⟨new'.1, by simp [same, new'.2]⟩ other given

/-- All names that a search for `name` can come to ask for. -/
def namesOnTheWay (r : Registry κ) (name : String) : List String :=
  name :: r.instances.toList.flatMap fun i => i.record.exports.filterMap fun decl =>
    match decl.source with
    | .indirect _ inner => some inner
    | _ => none

theorem mem_namesOnTheWay {m : ModuleId} {i : Instance κ} {decl : ExportDecl κ}
    {name specifier inner : String} (known : r.get? m = some i) (declared : decl ∈ i.record.exports)
    (source : decl.source = .indirect specifier inner) : inner ∈ r.namesOnTheWay name := by
  refine List.mem_cons_of_mem _ (List.mem_flatMap.mpr ⟨i, ?_, ?_⟩)
  · exact Array.mem_toList_iff.mpr (Array.mem_of_getElem? known)
  · exact List.mem_filterMap.mpr ⟨decl, declared, by simp [source]⟩

/-- There are no more questions than modules times names. -/
theorem Proper.length_le (ready : Resolvable r s members) {names : List String} {asked : Asked}
    (proper : Proper members names asked) : asked.length ≤ r.size * names.length := by
  have inside : asked ⊆ ((List.range r.size).map ModuleId.mk) ×ˢ names := by
    intro q held
    obtain ⟨member, named⟩ := proper.inside q held
    obtain ⟨i, known⟩ := ready.registered q.1 member
    obtain ⟨bound, _⟩ := Array.getElem?_eq_some_iff.mp known
    exact List.mem_product.mpr ⟨List.mem_map.mpr ⟨q.1.index, List.mem_range.mpr bound, rfl⟩, named⟩
  simpa [List.length_product] using (List.subperm_of_subset proper.once inside).length_le

theorem Accounts.mono {inner outer : Question → Prop} {before after : Asked} {result : Resolution}
    (account : Accounts r s inner before after result) (wider : ∀ q, inner q → outer q) :
    Accounts r s outer before after result := by
  cases result with
  | ambiguous =>
    obtain ⟨p, q, one, other, reachedP, reachedQ, rest⟩ := account
    exact ⟨p, q, one, other, wider p reachedP, wider q reachedQ, rest⟩
  | notFound => exact account
  | found owner slot => exact account

theorem Answers.mono {names : List String} {inner outer : Question → Prop} {q : Question}
    {before : Asked} {result : Resolution × Asked}
    (answers : Answers r s members names inner q before result) (wider : ∀ q, inner q → outer q) :
    Answers r s members names outer q before result := by
  obtain ⟨grown, met, account⟩ := answers
  exact ⟨⟨grown.kept, grown.proper, grown.longer, fun p fresh => wider p (grown.reached p fresh)⟩,
    met, account.mono wider⟩

/-- A question that the module answers itself leads nowhere. -/
private theorem not_leadsTo_of_own (ready : Resolvable r s members) {m : ModuleId} {i : Instance κ}
    {decl : ExportDecl κ} (member : members m) (known : r.get? m = some i)
    (declared : decl ∈ i.record.exports)
    (own : ∀ specifier inner, decl.source ≠ .indirect specifier inner) (next : Question) :
    ¬ LeadsTo r (m, decl.name) next := by
  intro edge
  cases edge with
  | indirect known' declared' named source resolved =>
    rw [known] at known'
    cases known'
    have same := (ready.wellFormed member known).export_unique declared' declared named
    exact own _ _ (same ▸ source)
  | star known' undeclared =>
    rw [known] at known'
    cases known'
    exact undeclared decl declared rfl

/-- A re-export leads to one question only and gives nothing itself. -/
private theorem leadsTo_indirect (ready : Resolvable r s members) {m target : ModuleId}
    {i : Instance κ} {decl : ExportDecl κ} (member : members m) (known : r.get? m = some i)
    (declared : decl ∈ i.record.exports) {specifier inner : String}
    (source : decl.source = .indirect specifier inner)
    (resolved : i.dependency? specifier = some target) :
    (∀ next, LeadsTo r (m, decl.name) next → next = (target, inner)) ∧
      ∀ slot, ¬ Gives r s (m, decl.name) slot := by
  have fits := ready.wellFormed member known
  constructor
  · intro next edge
    cases edge with
    | indirect known' declared' named source' resolved' =>
      rw [known] at known'
      cases known'
      cases fits.export_unique declared' declared named
      rw [source] at source'
      cases source'
      rw [resolved] at resolved'
      cases resolved'
      rfl
    | star known' undeclared =>
      rw [known] at known'
      cases known'
      exact absurd rfl (undeclared decl declared)
  · rintro slot ⟨⟨i', known', decl', declared', named, own⟩, _⟩
    rw [known] at known'
    cases known'
    cases fits.export_unique declared' declared named
    exact own _ _ source

private theorem not_gives_of_undeclared {m : ModuleId} {name : String} {i : Instance κ}
    (known : r.get? m = some i) (undeclared : ∀ decl ∈ i.record.exports, decl.name ≠ name)
    (slot : SlotId) : ¬ Gives r s (m, name) slot := by
  rintro ⟨⟨i', known', decl, declared, named, _⟩, _⟩
  rw [known] at known'
  cases known'
  exact undeclared decl declared named

section Asking

variable {names : List String} {within : Question → Prop} {m : ModuleId} {name : String}
  {asked : Asked} {i : Instance κ}

private theorem eq_of_fresh {q asking : Question} (fresh : Fresh asked (asking :: asked) q) :
    q = asking :=
  (List.mem_cons.mp fresh.1).resolve_right fresh.2

private theorem proper_ask (proper : Proper members names asked) (new : (m, name) ∉ asked)
    (member : members m) (named : name ∈ names) : Proper members names ((m, name) :: asked) := by
  refine ⟨List.nodup_cons.mpr ⟨new, proper.once⟩, fun q held => ?_⟩
  rcases List.mem_cons.mp held with rfl | held
  · exact ⟨member, named⟩
  · exact proper.inside q held

private theorem grown_ask (proper : Proper members names ((m, name) :: asked))
    (here : within (m, name)) : Extends members names within asked ((m, name) :: asked) := by
  refine ⟨fun q held => List.mem_cons_of_mem _ held, proper, by simp, fun q fresh => ?_⟩
  rw [eq_of_fresh fresh]
  exact here

/-- A name that the module declares itself is accounted for by its slot. -/
private theorem answers_own (ready : Resolvable r s members) {decl : ExportDecl κ} {slot : SlotId}
    (member : members m) (known : r.get? m = some i) (declared : decl ∈ i.record.exports)
    (own : ∀ specifier inner, decl.source ≠ .indirect specifier inner)
    (held : r.exportSlot? s m decl.name = some slot) (new : (m, decl.name) ∉ asked)
    (grown : Extends members names within asked ((m, decl.name) :: asked)) :
    Answers r s members names within (m, decl.name) asked
      (.found m slot, (m, decl.name) :: asked) := by
  have gives : Gives r s (m, decl.name) slot := ⟨⟨i, known, decl, declared, rfl, own⟩, held⟩
  refine ⟨grown, by simp, fun q fresh next edge => ?_, ⟨_, ⟨by simp, new⟩, rfl, gives⟩,
    fun q fresh other given => ?_⟩
  · rw [eq_of_fresh fresh] at edge
    exact absurd edge (not_leadsTo_of_own ready member known declared own next)
  · rw [eq_of_fresh fresh] at given
    have others := given.2
    rw [held] at others
    exact (Option.some.inj others).symm

/-- Nothing is behind a default name that the module does not declare. -/
private theorem answers_default (known : r.get? m = some i)
    (undeclared : ∀ decl ∈ i.record.exports, decl.name ≠ defaultName)
    (grown : Extends members names within asked ((m, defaultName) :: asked)) :
    Answers r s members names within (m, defaultName) asked
      (.notFound, (m, defaultName) :: asked) := by
  refine ⟨grown, by simp, fun q fresh next edge => ?_, fun q fresh slot gives => ?_⟩
  · rw [eq_of_fresh fresh] at edge
    cases edge with
    | indirect known' declared named source resolved =>
      rw [known] at known'
      cases known'
      exact absurd named (undeclared _ declared)
    | star _ _ passedOn => exact absurd rfl passedOn
  · rw [eq_of_fresh fresh] at gives
    exact not_gives_of_undeclared known undeclared slot gives

/-- A name that the module does not declare is accounted for by asking its stars. -/
private theorem answers_stars {ask : ModuleId → Asked → Resolution × Asked}
    (known : r.get? m = some i) (undeclared : ∀ decl ∈ i.record.exports, decl.name ≠ name)
    (grown : Extends members names within asked ((m, name) :: asked))
    (asks : ∀ target ∈ i.starTargets, ∀ other, Proper members names other →
      ((m, name) :: asked).length ≤ other.length →
      Answers r s members names within (target, name) other (ask target other)) :
    Answers r s members names within (m, name) asked
      (Resolution.merge ask none i.starTargets ((m, name) :: asked)) := by
  have nothing : Accounts r s within ((m, name) :: asked) ((m, name) :: asked) (ofFound none) :=
    ⟨fun q fresh => absurd fresh.1 fresh.2, fun q fresh => absurd fresh.1 fresh.2⟩
  have merged := merge_accounts i.starTargets asks none (Nat.le_refl _) (.refl grown.proper) nothing
  have silent := not_gives_of_undeclared (s := s) known undeclared
  refine ⟨grown.trans merged.grown, merged.kept _ (by simp), merged.accounts.pass silent ?_⟩
  intro settled next edge
  cases edge with
  | indirect known' declared named source resolved =>
    rw [known] at known'
    cases known'
    exact absurd named (undeclared _ declared)
  | star known' _ _ listed resolved =>
    rw [known] at known'
    cases known'
    exact merged.met settled _ (List.mem_filterMap.mpr ⟨_, listed, resolved⟩)

end Asking

/-- A search that is deep enough for the questions not asked yet accounts for all slots
within reach of its question. -/
theorem search_accounts (ready : Resolvable r s members) {start : String} (depth : Nat)
    {m : ModuleId} {name : String} {asked : Asked} (member : members m)
    (named : name ∈ r.namesOnTheWay start) (proper : Proper members (r.namesOnTheWay start) asked)
    (deep : r.size * (r.namesOnTheWay start).length < depth + asked.length) :
    Answers r s members (r.namesOnTheWay start) (ReflTransGen (LeadsTo r) (m, name)) (m, name) asked
      (r.search s depth m name asked) := by
  induction depth generalizing m name asked with
  | zero =>
    have bound := proper.length_le ready
    omega
  | succ depth ih =>
    rw [search]
    by_cases repeated : (m, name) ∈ asked
    · simp only [List.contains_eq_mem, repeated, decide_true, ↓reduceIte]
      exact ⟨.refl proper, repeated, fun q fresh => absurd fresh.1 fresh.2,
        fun q fresh => absurd fresh.1 fresh.2⟩
    obtain ⟨i, known⟩ := ready.registered m member
    have first := proper_ask proper repeated member named
    have grown : Extends members (r.namesOnTheWay start) (ReflTransGen (LeadsTo r) (m, name)) asked
        ((m, name) :: asked) := grown_ask first .refl
    have deeper : r.size * (r.namesOnTheWay start).length <
        depth + ((m, name) :: asked).length := by
      rw [List.length_cons]
      omega
    simp only [List.contains_eq_mem, repeated, decide_false, Bool.false_eq_true, ↓reduceIte, known]
    cases found : i.record.exports.find? fun decl => decl.name = name with
    | some decl =>
      have declared := List.mem_of_find?_eq_some found
      have same : decl.name = name := by simpa using List.find?_some found
      subst same
      cases source : decl.source with
      | indirect specifier inner =>
        obtain ⟨target, resolved, inside⟩ := ready.closed m i member known specifier
          (ready.indirect_requested member known declared source)
        have edge : LeadsTo r (m, decl.name) (target, inner) :=
          .indirect known declared rfl source resolved
        obtain ⟨only, silent⟩ := leadsTo_indirect ready member known declared source resolved
        simp only [source, resolved]
        obtain ⟨further, met, account⟩ := (ih inside (mem_namesOnTheWay known declared source) first
          deeper).mono fun q path => ReflTransGen.head edge path
        refine ⟨grown.trans further, further.kept _ (by simp), account.pass silent ?_⟩
        intro _ next onward
        exact only next onward ▸ met
      | own local' =>
        obtain ⟨slot, held, _⟩ := ready.slots m i member known decl declared (by simp [source])
        simp only [source, held]
        exact answers_own ready member known declared (by simp [source]) held repeated grown
      | declaration code =>
        obtain ⟨slot, held, _⟩ := ready.slots m i member known decl declared (by simp [source])
        simp only [source, held]
        exact answers_own ready member known declared (by simp [source]) held repeated grown
      | observed local' =>
        obtain ⟨slot, held, _⟩ := ready.slots m i member known decl declared (by simp [source])
        simp only [source, held]
        exact answers_own ready member known declared (by simp [source]) held repeated grown
    | none =>
      have undeclared : ∀ decl ∈ i.record.exports, decl.name ≠ name := fun decl declared =>
        by simpa using List.find?_eq_none.mp found decl declared
      by_cases default : name = defaultName
      · subst default
        simp only [↓reduceIte]
        exact answers_default known undeclared grown
      · simp only [default, ↓reduceIte]
        refine answers_stars known undeclared grown fun target starred other properOther longer => ?_
        obtain ⟨specifier, listed, resolved⟩ := List.mem_filterMap.mp starred
        have edge : LeadsTo r (m, name) (target, name) :=
          .star known undeclared default listed resolved
        have inside : members (target, name).1 := ready.step member edge
        rw [List.length_cons] at longer
        have asks := ih inside named properOther (by omega)
        exact asks.mono fun q path => ReflTransGen.head edge path

/-! ## The depth is never used up -/

theorem merge_congr {names : List String} {within : Question → Prop} {name : String}
    {ask ask' : ModuleId → Asked → Resolution × Asked} {length : Nat} (targets : List ModuleId)
    (asks : ∀ target ∈ targets, ∀ asked, Proper members names asked → length ≤ asked.length →
      ask' target asked = ask target asked ∧
        Answers r s members names within (target, name) asked (ask target asked))
    (sofar : Option (ModuleId × SlotId)) {asked : Asked} (proper : Proper members names asked)
    (long : length ≤ asked.length) :
    Resolution.merge ask' sofar targets asked = Resolution.merge ask sofar targets asked := by
  induction targets generalizing sofar asked with
  | nil => cases sofar <;> rfl
  | cons target rest ih =>
    obtain ⟨same, grown, _, _⟩ := asks target (by simp) asked proper long
    have onward := fun known => ih (fun other member => asks other (List.mem_cons_of_mem _ member))
      known grown.proper (Nat.le_trans long grown.longer)
    rw [Resolution.merge, Resolution.merge, same]
    cases found : ask target asked with
    | mk result after =>
      simp only [found] at onward
      cases result with
      | ambiguous => rfl
      | notFound => exact onward sofar
      | found owner slot =>
        cases sofar with
        | none => exact onward (some (owner, slot))
        | some held => simp only [onward]

theorem search_succ (ready : Resolvable r s members) {start : String} (depth : Nat)
    {m : ModuleId} {name : String} {asked : Asked} (member : members m)
    (named : name ∈ r.namesOnTheWay start) (proper : Proper members (r.namesOnTheWay start) asked)
    (deep : r.size * (r.namesOnTheWay start).length < depth + asked.length) :
    r.search s (depth + 1) m name asked = r.search s depth m name asked := by
  induction depth generalizing m name asked with
  | zero =>
    have bound := proper.length_le ready
    omega
  | succ depth ih =>
    conv_lhs => rw [search]
    conv_rhs => rw [search]
    by_cases repeated : (m, name) ∈ asked
    · simp only [List.contains_eq_mem, repeated, decide_true, ↓reduceIte]
    obtain ⟨i, known⟩ := ready.registered m member
    have first : Proper members (r.namesOnTheWay start) ((m, name) :: asked) := by
      refine ⟨List.nodup_cons.mpr ⟨repeated, proper.once⟩, fun q held => ?_⟩
      rcases List.mem_cons.mp held with rfl | held
      · exact ⟨member, named⟩
      · exact proper.inside q held
    simp only [List.contains_eq_mem, repeated, decide_false, Bool.false_eq_true, ↓reduceIte, known]
    cases found : i.record.exports.find? fun decl => decl.name = name with
    | some decl =>
      have declared := List.mem_of_find?_eq_some found
      cases source : decl.source with
      | indirect specifier inner =>
        obtain ⟨target, resolved, inside⟩ := ready.closed m i member known specifier
          (ready.indirect_requested member known declared source)
        simp only [source, resolved]
        exact ih inside (mem_namesOnTheWay known declared source) first
          (by simp only [List.length_cons]; omega)
      | own name => simp only [source]
      | declaration code => simp only [source]
      | observed name => simp only [source]
    | none =>
      have undeclared : ∀ decl ∈ i.record.exports, decl.name ≠ name := fun decl declared =>
        by simpa using List.find?_eq_none.mp found decl declared
      by_cases default : name = defaultName
      · simp only [default, ↓reduceIte]
      · simp only [default, ↓reduceIte]
        have asks : ∀ target ∈ i.starTargets, ∀ other,
            Proper members (r.namesOnTheWay start) other →
            ((m, name) :: asked).length ≤ other.length →
            r.search s (depth + 1) target name other = r.search s depth target name other ∧
              Answers r s members (r.namesOnTheWay start) (fun _ => True) (target, name) other
                (r.search s depth target name other) := by
          intro target starred other properOther longer
          obtain ⟨specifier, listed, resolved⟩ := List.mem_filterMap.mp starred
          have inside : members (target, name).1 :=
            ready.step member (.star known undeclared default listed resolved)
          rw [List.length_cons] at longer
          have deeper : r.size * (r.namesOnTheWay start).length < depth + other.length := by omega
          exact ⟨ih inside named properOther deeper,
            (search_accounts ready depth inside named properOther deeper).mono fun _ _ => trivial⟩
        exact merge_congr i.starTargets asks none first (Nat.le_refl _)

private theorem length_flatMap_le (instances : List (Instance κ)) (start : Nat) :
    (instances.flatMap fun i => i.record.exports.filterMap fun decl =>
      match decl.source with
      | .indirect _ inner => some inner
      | _ => none).length + start ≤
      instances.foldl (fun n i => n + i.record.exports.length) start := by
  induction instances generalizing start with
  | nil => simp
  | cons i rest ih =>
    simp only [List.flatMap_cons, List.length_append, List.foldl_cons]
    have here := List.length_filterMap_le (fun decl : ExportDecl κ => match decl.source with
      | .indirect _ inner => some inner
      | _ => none) i.record.exports
    have there := ih (start + i.record.exports.length)
    omega

/-- The depth a resolution starts with is more than the questions it can come to ask. -/
theorem questions_bound (r : Registry κ) (name : String) :
    r.size * (r.namesOnTheWay name).length < r.questions := by
  have names := length_flatMap_le r.instances.toList 1
  rw [Array.foldl_toList] at names
  have product := Nat.mul_le_mul_left r.size names
  simp only [namesOnTheWay, List.length_cons, questions]
  omega

/-- Asked with an empty list, a search has asked for everything it can reach, unless
two slots were enough. -/
theorem search_complete (ready : Resolvable r s members) {m : ModuleId} (member : members m)
    (name : String) :
    Accounts r s (ReflTransGen (LeadsTo r) (m, name)) [] (r.search s r.questions m name []).2
        (r.resolve s m name) ∧
      (r.resolve s m name ≠ .ambiguous → ∀ q, ReflTransGen (LeadsTo r) (m, name) q ↔
        q ∈ (r.search s r.questions m name []).2) := by
  obtain ⟨grown, met, account⟩ := search_accounts ready r.questions member
    (List.mem_cons_self : name ∈ r.namesOnTheWay name) ⟨List.nodup_nil, by simp⟩
    (questions_bound r name)
  refine ⟨account, fun settled q => ⟨fun path => ?_, fun held => grown.reached q ⟨held, by simp⟩⟩⟩
  have explored : Explored r [] (r.search s r.questions m name []).2 := by
    have account' : Accounts r s (ReflTransGen (LeadsTo r) (m, name)) []
      (r.search s r.questions m name []).2 (r.resolve s m name) := account
    cases answer : r.resolve s m name with
    | ambiguous => exact absurd answer settled
    | notFound => rw [answer] at account'; exact account'.1
    | found owner slot => rw [answer] at account'; exact account'.1
  induction path with
  | refl => exact met
  | tail _ edge ih => exact explored _ ⟨ih, by simp⟩ _ edge

/-- All that a resolution can answer, said by the ends within reach. -/
inductive Verdict (r : Registry κ) (s : Store κ) (start : Question) : Resolution → Prop where
  | nothing (none : ∀ q, ReflTransGen (LeadsTo r) start q → ¬ Ends r q) : Verdict r s start .notFound
  | one {owner : ModuleId} {slot : SlotId} (name : String)
      (reached : ReflTransGen (LeadsTo r) start (owner, name)) (gives : Gives r s (owner, name) slot)
      (only : ∀ q, ReflTransGen (LeadsTo r) start q → ∀ other, Gives r s q other → other = slot) :
      Verdict r s start (.found owner slot)
  | several {p q : Question} {one other : SlotId} (first : ReflTransGen (LeadsTo r) start p)
      (second : ReflTransGen (LeadsTo r) start q) (gives : Gives r s p one)
      (gives' : Gives r s q other) (different : one ≠ other) : Verdict r s start .ambiguous

theorem verdict_resolve (ready : Resolvable r s members) {m : ModuleId} (member : members m)
    (name : String) : Verdict r s (m, name) (r.resolve s m name) := by
  obtain ⟨account, complete⟩ := search_complete ready member name
  cases answer : r.resolve s m name with
  | notFound =>
    rw [answer] at account complete
    refine .nothing fun q path ends => ?_
    obtain ⟨slot, gives⟩ := ready.gives_of_ends (ready.reach (p := (m, name)) member path) ends
    exact account.2 q ⟨(complete (by simp) q).mp path, by simp⟩ slot gives
  | found owner slot =>
    rw [answer] at account complete
    obtain ⟨_, ⟨q, fresh, owned, gives⟩, only⟩ := account
    subst owned
    exact .one q.2 ((complete (by simp) q).mpr fresh.1) gives
      fun p path other given => only p ⟨(complete (by simp) p).mp path, by simp⟩ other given
  | ambiguous =>
    rw [answer] at account
    obtain ⟨p, q, one, other, first, second, gives, gives', different⟩ := account
    exact .several first second gives gives' different

namespace Verdict

variable {start : Question} {answer : Resolution}

theorem eq_notFound_iff (verdict : Verdict r s start answer) :
    answer = .notFound ↔ ∀ q, ReflTransGen (LeadsTo r) start q → ¬ Ends r q := by
  cases verdict with
  | nothing none => simpa using none
  | one name reached gives only => simpa using ⟨_, _, reached, gives.1⟩
  | several first second gives gives' different => simpa using ⟨_, _, first, gives.1⟩

theorem eq_found_iff (verdict : Verdict r s start answer) (slot : SlotId) :
    (∃ owner, answer = .found owner slot) ↔
      (∃ q, ReflTransGen (LeadsTo r) start q ∧ Gives r s q slot) ∧
        ∀ q, ReflTransGen (LeadsTo r) start q → ∀ other, Gives r s q other → other = slot := by
  cases verdict with
  | nothing none =>
    constructor
    · rintro ⟨_, same⟩
      cases same
    · rintro ⟨⟨q, path, gives⟩, _⟩
      exact absurd gives.1 (none q path)
  | @one owner held name reached gives only =>
    constructor
    · rintro ⟨_, same⟩
      cases same
      exact ⟨⟨_, reached, gives⟩, only⟩
    · rintro ⟨⟨q, path, given⟩, _⟩
      cases only q path slot given
      exact ⟨owner, rfl⟩
  | several first second gives gives' different =>
    constructor
    · rintro ⟨_, same⟩
      cases same
    · rintro ⟨_, only⟩
      exact absurd ((only _ first _ gives).trans (only _ second _ gives').symm) different

theorem eq_ambiguous_iff (verdict : Verdict r s start answer) :
    answer = .ambiguous ↔ ∃ p q one other, ReflTransGen (LeadsTo r) start p ∧
      ReflTransGen (LeadsTo r) start q ∧ Gives r s p one ∧ Gives r s q other ∧ one ≠ other := by
  cases verdict with
  | nothing none =>
    refine ⟨nofun, fun ⟨p, _, _, _, path, _, gives, _⟩ => absurd gives.1 (none p path)⟩
  | one name reached gives only =>
    refine ⟨nofun, fun ⟨p, q, slot, other, first, second, gives, gives', different⟩ => ?_⟩
    exact absurd ((only p first slot gives).trans (only q second other gives').symm) different
  | several first second gives gives' different =>
    exact ⟨fun _ => ⟨_, _, _, _, first, second, gives, gives', different⟩, fun _ => rfl⟩

/-- What a branch finds by itself is found from above it too, or is ambiguous there. -/
theorem of_branch {q : Question} {below : Resolution} (verdict : Verdict r s start answer)
    (edge : LeadsTo r start q) (branch : Verdict r s q below) :
    (below = .ambiguous → answer = .ambiguous) ∧ ∀ owner slot, below = .found owner slot →
      answer = .ambiguous ∨ ∃ owner, answer = .found owner slot := by
  have above : ∀ p, ReflTransGen (LeadsTo r) q p → ReflTransGen (LeadsTo r) start p :=
    fun p path => .head edge path
  constructor
  · rw [branch.eq_ambiguous_iff, verdict.eq_ambiguous_iff]
    rintro ⟨p, p', one, other, first, second, rest⟩
    exact ⟨p, p', one, other, above p first, above p' second, rest⟩
  · intro owner slot found
    obtain ⟨⟨p, path, gives⟩, _⟩ := (branch.eq_found_iff slot).mp ⟨owner, found⟩
    by_cases only : ∀ p', ReflTransGen (LeadsTo r) start p' → ∀ other, Gives r s p' other → other = slot
    · exact .inr ((verdict.eq_found_iff slot).mpr ⟨⟨p, above p path, gives⟩, only⟩)
    · push Not at only
      obtain ⟨p', path', other, gives', different⟩ := only
      exact .inl (verdict.eq_ambiguous_iff.mpr
        ⟨p', p, other, slot, path', above p path, gives', gives, different⟩)

end Verdict

/-- Resolution finds exactly what the ends within reach of the question give: nothing
when there is no end, the one slot they all give together with the module that owns it,
and an ambiguity when two of them give different slots. Sharing the list of questions
between the branches of a search hides nothing that a branch finds when it is asked by
itself, and no search is cut off by its depth. -/
theorem resolve_eq_reachable (ready : Resolvable r s members) {m : ModuleId} (member : members m)
    (name : String) :
    (r.resolve s m name = .notFound ↔
      ∀ q, ReflTransGen (LeadsTo r) (m, name) q → ¬ Ends r q) ∧
    (∀ slot, (∃ owner, r.resolve s m name = .found owner slot) ↔
      (∃ q, ReflTransGen (LeadsTo r) (m, name) q ∧ Ends r q) ∧
        ∀ q, ReflTransGen (LeadsTo r) (m, name) q → Ends r q →
          r.exportSlot? s q.1 q.2 = some slot) ∧
    (∀ owner slot, r.resolve s m name = .found owner slot →
      ∃ i, r.get? owner = some i ∧ (s.slot? slot).map (·.owner) = some i.identity ∧
        ∃ exported, r.exportSlot? s owner exported = some slot) ∧
    (r.resolve s m name = .ambiguous ↔
      ∃ p q one other, ReflTransGen (LeadsTo r) (m, name) p ∧ ReflTransGen (LeadsTo r) (m, name) q ∧
        Gives r s p one ∧ Gives r s q other ∧ one ≠ other) ∧
    (∀ q, LeadsTo r (m, name) q →
      (r.resolve s q.1 q.2 = .ambiguous → r.resolve s m name = .ambiguous) ∧
      ∀ owner slot, r.resolve s q.1 q.2 = .found owner slot →
        r.resolve s m name = .ambiguous ∨ ∃ owner, r.resolve s m name = .found owner slot) ∧
    ∀ extra, r.search s (r.questions + extra) m name [] = r.search s r.questions m name [] := by
  have verdict := verdict_resolve ready member name
  have inside : ∀ {q}, ReflTransGen (LeadsTo r) (m, name) q → members q.1 :=
    fun path => ready.reach (p := (m, name)) member path
  refine ⟨verdict.eq_notFound_iff, fun slot => ?_, fun owner slot found => ?_,
    verdict.eq_ambiguous_iff, fun q edge => ?_, fun extra => ?_⟩
  · rw [verdict.eq_found_iff slot]
    constructor
    · rintro ⟨⟨q, path, gives⟩, only⟩
      refine ⟨⟨q, path, gives.1⟩, fun p reached ends => ?_⟩
      obtain ⟨other, given⟩ := ready.gives_of_ends (inside reached) ends
      exact only p reached other given ▸ given.2
    · rintro ⟨⟨q, path, ends⟩, all⟩
      refine ⟨⟨q, path, ends, all q path ends⟩, fun p reached other given => ?_⟩
      have same := (all p reached given.1).symm.trans given.2
      exact (Option.some.inj same).symm
  · rw [found] at verdict
    cases verdict with
    | one exported reached gives only =>
      obtain ⟨i, known, owned⟩ := ready.owner_of_gives (inside reached) gives
      exact ⟨i, known, owned, exported, gives.2⟩
  · exact verdict.of_branch edge (verdict_resolve ready (inside (.single edge)) q.2)
  · induction extra with
    | zero => rfl
    | succ extra ih =>
      have bound := questions_bound r name
      rw [← ih, ← Nat.add_assoc]
      exact search_succ ready _ member (List.mem_cons_self : name ∈ r.namesOnTheWay name)
        ⟨List.nodup_nil, by simp⟩ (by simp only [List.length_nil]; omega)

/-! A ring of modules: the first passes on all names of the second and the third, the
second passes on those of the last and of the first again, and the third takes `x`
from the last, where it is called `y`. -/

private def ringModule (identity : String) (record : Record Unit) (dependencies : Dependencies)
    (e : Nat) : Instance Unit :=
  { Instance.new identity record with
    dependencies := some dependencies
    environment := some ⟨e⟩ }

private def ring : Registry Unit where
  instances := #[
    ringModule "/main" ⟨["./a", "./b"], [], [], ["./a", "./b"], .script none⟩
      [("./a", ⟨1⟩), ("./b", ⟨2⟩)] 0,
    ringModule "/a" ⟨["./c", "./main"], [], [], ["./c", "./main"], .script none⟩
      [("./c", ⟨3⟩), ("./main", ⟨0⟩)] 1,
    ringModule "/b" ⟨["./c"], [], [⟨"x", .value, .none, .indirect "./c" "y"⟩], [], .script none⟩
      [("./c", ⟨3⟩)] 2,
    ringModule "/c" ⟨[], [], [⟨"y", .value, .none, .own "y"⟩], [], .script none⟩ [] 3]
  components := #[]
  entered := .empty

private def ringStore : Store Unit :=
  let environment (identity : String) (exports : Scope SlotId) : Environment :=
    ⟨identity, .script, exports, exports, .empty, .empty⟩
  { Store.empty with
    slots := #[⟨"/c", "y", .value, .none, .uninitialized⟩]
    environments := #[environment "/main" .empty, environment "/a" .empty, environment "/b" .empty,
      environment "/c" ⟨[("y", ⟨0⟩)]⟩] }

private theorem ring_resolvable : Resolvable ring ringStore fun m => m.index < 4 := by
  refine ⟨?_, ?_, ?_, ?_⟩
  · rintro ⟨n⟩ small
    exact ⟨_, Array.getElem?_eq_getElem small⟩
  all_goals
    rintro ⟨n⟩ i small known
    obtain rfl | rfl | rfl | rfl : n = 0 ∨ n = 1 ∨ n = 2 ∨ n = 3 := by
      simp only at small
      omega
  all_goals cases known
  any_goals first | rfl | decide
  -- Only the slots are left: the third module takes its export over, the last one owns it.
  · exact fun decl declared => nomatch declared
  · exact fun decl declared => nomatch declared
  · intro decl declared own
    cases List.mem_singleton.mp declared
    exact absurd rfl (own _ _)
  · intro decl declared own
    cases List.mem_singleton.mp declared
    exact ⟨⟨0⟩, by decide⟩

/-- In the ring, `x` of the first module stands for `y` of the last, though the search
comes back to where it started. -/
theorem resolve_ring : ring.resolve ringStore ⟨0⟩ "x" = .found ⟨3⟩ ⟨0⟩ ∧
    ∀ q, ReflTransGen (LeadsTo ring) (⟨0⟩, "x") q → Ends ring q →
      ring.exportSlot? ringStore q.1 q.2 = some ⟨0⟩ := by
  have found : ring.resolve ringStore ⟨0⟩ "x" = .found ⟨3⟩ ⟨0⟩ := by decide
  obtain ⟨_, founds, _⟩ := resolve_eq_reachable ring_resolvable (m := ⟨0⟩) (by decide) "x"
  exact ⟨found, ((founds ⟨0⟩).mp ⟨⟨3⟩, found⟩).2⟩

end MixedModules.Registry
