import MixedModules.Proofs.Registry.Growth

/-! Looking modules up by their identities.

No identity is registered twice, since a module is registered only where a lookup has found
none. So a lookup finds the one module that has the identity. -/
namespace MixedModules.Registry

variable {κ : Type} {r r' : Registry κ} {m : ModuleId} {identity other : String}

/-- Each identity is registered once. -/
def Distinct (r : Registry κ) : Prop :=
  ∀ m m' i i', r.get? m = some i → r.get? m' = some i' → i.identity = i'.identity → m = m'

/-- The module has the identity. -/
def Bears (r : Registry κ) (m : ModuleId) (identity : String) : Prop :=
  ∃ i, r.get? m = some i ∧ i.identity = identity

theorem lookup_eq_none_iff : r.lookup identity = none ↔ ∀ m, ¬ r.Bears m identity := by
  unfold lookup Bears
  rw [Option.map_eq_none_iff, Array.findIdx?_eq_none_iff]
  constructor
  · rintro unlike m ⟨i, known, same⟩
    simpa [same] using unlike i (Array.mem_of_getElem? known)
  · intro unlike i member
    obtain ⟨n, known⟩ := Array.getElem?_of_mem member
    simpa using fun same => unlike ⟨n⟩ ⟨i, known, same⟩

theorem bears_of_lookup (found : r.lookup identity = some m) : r.Bears m identity :=
  get?_lookup found

theorem Distinct.lookup_iff (distinct : r.Distinct) :
    r.lookup identity = some m ↔ r.Bears m identity := by
  refine ⟨bears_of_lookup, fun bears => ?_⟩
  cases found : r.lookup identity with
  | none => exact absurd bears (lookup_eq_none_iff.mp found m)
  | some m' =>
    obtain ⟨i, known, rfl⟩ := bears
    obtain ⟨i', known', same⟩ := bears_of_lookup found
    rw [distinct m' m i' i known' known same]

/-- Modules of a registry that bear their identities in another one are as distinct as there. -/
theorem Distinct.transfer (distinct : r.Distinct)
    (same : ∀ m identity, r'.Bears m identity → r.Bears m identity) : r'.Distinct := by
  intro m m' i i' known known' alike
  obtain ⟨j, there, named⟩ := same m _ ⟨i, known, rfl⟩
  obtain ⟨j', there', named'⟩ := same m' _ ⟨i', known', rfl⟩
  exact distinct m m' j j' there there' (named.trans (alike.trans named'.symm))

theorem bears_register {record : Record κ} : (r.register identity record).2.Bears m other ↔
    r.Bears m other ∨ m = ⟨r.size⟩ ∧ identity = other := by
  unfold Bears
  simp only [get?_register]
  constructor
  · rintro ⟨i, known, rfl⟩
    split at known
    · next last =>
      cases known
      exact .inr ⟨congrArg ModuleId.mk last, rfl⟩
    · exact .inl ⟨i, known, rfl⟩
  · rintro (⟨i, known, rfl⟩ | ⟨rfl, rfl⟩)
    · exact ⟨i, by rw [if_neg (Nat.ne_of_lt (lt_size_of_get? known)), known], rfl⟩
    · exact ⟨_, if_pos rfl, rfl⟩

theorem Distinct.register {record : Record κ} (distinct : r.Distinct)
    (absent : r.lookup identity = none) : (r.register identity record).2.Distinct := by
  intro m m' i i' known known' same
  have unknown := lookup_eq_none_iff.mp absent
  rcases bears_register.mp ⟨i, known, rfl⟩ with early | ⟨last, named⟩ <;>
    rcases bears_register.mp ⟨i', known', rfl⟩ with early' | ⟨last', named'⟩
  · obtain ⟨j, there, like⟩ := early
    obtain ⟨j', there', like'⟩ := early'
    exact distinct m m' j j' there there' (like.trans (same.trans like'.symm))
  · exact absurd (named' ▸ same ▸ early) (unknown m)
  · exact absurd (named ▸ same.symm ▸ early') (unknown m')
  · exact last.trans last'.symm

end MixedModules.Registry
