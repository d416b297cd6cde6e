import MixedModules.Proofs.History.Orderly

/-! What binary modules declare holds of what they have.

It holds in every store there has been, those in the middle of a body included, and of
stores that a failed evaluation left behind. -/
namespace MixedModules

variable {κ σ ℓ : Type}

namespace Store

/-- All that the home of a binary module holds has the type that the module declares:
each entity is an import or a definition, and an export has its value in a slot of its
own type. -/
structure Typed (s : Store κ) (record : Record κ) (environment : Environment) : Prop where
  entities : ∀ name value, environment.entities.get? name = some value →
    ∃ type, (name, type) ∈ record.entityTypes ∧
      (∀ other, (name, other) ∈ record.entityTypes → other = type) ∧ s.Conforms type value
  exports : ∀ name i, environment.exports.get? name = some i → ∃ decl ∈ record.exports,
    decl.name = name ∧ ∃ slot, s.slot? i = some slot ∧ slot.type = decl.type ∧
      ∀ value, slot.value? = some value → s.Conforms decl.type value

theorem Sound.typed {homes : EnvironmentId → Record κ → Prop} {s : Store κ} {e : EnvironmentId}
    {record : Record κ} {environment : Environment} (sound : s.Sound homes) (home : homes e record)
    (fits : record.WellFormed) (binary : record.kind = .binary)
    (known : s.environment? e = some environment) : s.Typed record environment := by
  have houses := sound.houses e record environment home known
  refine ⟨fun name value held => ?_, fun name i held => ?_⟩
  · obtain ⟨type, declared, conforms⟩ := houses.entities name value held
    exact ⟨type, declared, fun _ also => entityType_unique fits also declared, conforms⟩
  obtain ⟨decl, declared, named, slot, there, _, type⟩ := houses.exports name i held
  obtain ⟨body, shape⟩ : ∃ body, record.body = .binary body := by
    cases shape : record.body with
    | script code => simp [Record.kind, shape] at binary
    | binary body => exact ⟨body, rfl⟩
  have typed := export_typed fits shape declared
  refine ⟨decl, declared, named, slot, there, type, fun value given => ?_⟩
  rw [← type] at typed ⊢
  exact (sound.slots i slot there).conforms typed value given

end Store

/-- In every store of every history, what linked binary modules have is of the types that
they declare. The present store is one of these stores, and each linked module lives
there. -/
theorem Site.binaries_typed (setup : Setup κ σ ℓ) (memo : σ) (source : ℓ)
    (calls : List (Call κ σ ℓ)) {site : Site κ σ ℓ}
    (history : site = (Site.start memo source).run setup calls) :
    site.world.store ∈ site.world.past.events ∧
      (∀ m i e, site.registry.get? m = some i → i.environment = some e →
        ∃ environment, site.world.store.environment? e = some environment) ∧
      ∀ s ∈ site.world.past.events, ∀ m i e environment, site.registry.get? m = some i →
        i.kind = .binary → i.environment = some e → s.environment? e = some environment →
          s.Typed i.record environment := by
  have orderly : Orderly setup site := history ▸ Orderly.of_run setup memo source calls
  refine ⟨orderly.present, fun m i e known home => ?_, ?_⟩
  · obtain ⟨environment, there, _⟩ := orderly.housed.present m i e known home
    exact ⟨environment, there⟩
  intro s told m i e environment known binary home there
  have fits := Record.wellFormed_of_validate (orderly.stocked.checked m i known)
  exact (orderly.past s told).1.typed ⟨m, i, known, home, rfl⟩ fits binary there

/-- At the end of the small history the reader has a global of the type that it declares,
which is the global of the counter. -/
theorem Site.reader_typed : ∃ s environment,
    s = ((Site.start () ()).run Sample.setup (Sample.preparation ++ [.evaluate 0])).world.store ∧
      s.environment? ⟨0⟩ = some environment ∧
      environment.entities.get? "seen" = some (.global ⟨0⟩) ∧
      s.Conforms (.numeric ⟨.i32, true⟩) (.global ⟨0⟩) := by
  obtain ⟨present, homes, typed⟩ := Site.binaries_typed Sample.setup () ()
    (Sample.preparation ++ [.evaluate 0]) rfl
  generalize ended : (Site.start () ()).run Sample.setup (Sample.preparation ++ [.evaluate 0]) =
    site at present homes typed
  have registered : (site.registry.get? ⟨0⟩).map (fun i => (i.record, i.environment)) =
      some (Sample.reader, some ⟨0⟩) := by
    rw [← ended]
    decide +kernel
  have installed : (site.world.store.environment? ⟨0⟩).map (·.entities.get? "seen") =
      some (some (.global ⟨0⟩)) := by
    rw [← ended]
    decide +kernel
  obtain ⟨i, known, parts⟩ := Option.map_eq_some_iff.mp registered
  obtain ⟨record, home⟩ := Prod.mk.inj parts
  obtain ⟨environment, there, held⟩ := Option.map_eq_some_iff.mp installed
  have binary : i.kind = .binary := by
    unfold Instance.kind
    rw [record]
    rfl
  obtain ⟨type, declared, _, conforms⟩ :=
    (typed _ present ⟨0⟩ i ⟨0⟩ environment known binary home there).entities "seen" _ held
  have only : type = .numeric ⟨.i32, true⟩ := by
    rw [record] at declared
    simpa [Record.entityTypes, Sample.reader, BinaryBody.definitions, Record.importTypes]
      using declared
  exact ⟨_, environment, rfl, there, held, only ▸ conforms⟩

end MixedModules
