import MixedModules.Proofs.Evaluation.Body
import MixedModules.Proofs.Execution.Ending

/-! Imports, observed in any order.

What an import shows depends on the slot that provides it and on the object behind the value
there. Observing other imports touches neither, so it makes no difference which of them come
first: the step fails in one order if it does in another, and where it succeeds, the same
values are captured and installed, but for the places of what is made on the way. -/
namespace MixedModules

variable {κ σ : Type}

/-- The content with its value renamed. -/
def SlotContent.rename (rename : Value → Value) : SlotContent → SlotContent
  | uninitialized => uninitialized
  | deadZone => deadZone
  | snapshot value => snapshot (rename value)
  | live value => live (rename value)

/-- The slot with its value renamed. -/
def Slot.rename (rename : Value → Value) (slot : Slot) : Slot :=
  { slot with content := slot.content.rename rename }

theorem Slot.rename_eq_self {rename : Value → Value} {slot : Slot}
    (fixed : ∀ value, slot.value? = some value → rename value = value) :
    slot.rename rename = slot := by
  obtain ⟨owner, name, kind, type, content⟩ := slot
  cases content with
  | uninitialized | deadZone => rfl
  | snapshot value | live value =>
    simp only [Slot.rename, SlotContent.rename, fixed value rfl]

/-- Environments are the same up to a renaming of their entities. -/
def Environment.Renamed (rename : Value → Value) (environment environment' : Environment) : Prop :=
  ∃ entities, environment' = { environment with entities } ∧
    ∀ name, entities.get? name = (environment.entities.get? name).map rename

namespace Store

variable {s t t' : Store κ} {v : Value} {sight : Sight κ} {e : EnvironmentId}
  {environment : Environment} {b : ImportBinding} {bs : List ImportBinding}

/-! ## What is made -/

/-- The value is what was to be shown. -/
def Fulfils (t : Store κ) : Sight κ → Value → Prop
  | .kept value, v => v = value
  | .global made, v => ∃ g, v = .global g ∧ t.global g = .ok made
  | .adapter made, v => ∃ f, v = .function f ∧ t.function f = .ok made

/-- What was made is there. -/
theorem Fulfils.has (fulfils : t.Fulfils sight v) (fresh : sight.Fresh) : t.Has v := by
  cases sight with
  | kept => exact fresh.elim
  | global made | adapter made =>
    obtain ⟨place, rfl, known⟩ := fulfils
    exact ⟨made, known⟩

/-- A value is one thing that was made. -/
theorem Fulfils.unique {sight' : Sight κ} (fulfils : t.Fulfils sight v)
    (fulfils' : t.Fulfils sight' v) (fresh : sight.Fresh) (fresh' : sight'.Fresh) :
    sight = sight' := by
  cases sight with
  | kept => exact fresh.elim
  | global made =>
    obtain ⟨g, rfl, known⟩ := fulfils
    cases sight' with
    | kept => exact fresh'.elim
    | global =>
      obtain ⟨_, same, known'⟩ := fulfils'
      cases same
      cases known.symm.trans known'
      rfl
    | adapter =>
      obtain ⟨_, same, _⟩ := fulfils'
      cases same
  | adapter made =>
    obtain ⟨f, rfl, known⟩ := fulfils
    cases sight' with
    | kept => exact fresh'.elim
    | global =>
      obtain ⟨_, same, _⟩ := fulfils'
      cases same
    | adapter =>
      obtain ⟨_, same, known'⟩ := fulfils'
      cases same
      cases known.symm.trans known'
      rfl

/-- It is so wherever the object behind the value is the same. -/
theorem Fulfils.sameBehind (fulfils : s.Fulfils sight v) (same : s.SameBehind t v) :
    t.Fulfils sight v := by
  cases sight with
  | kept => exact fulfils
  | global | adapter =>
    obtain ⟨place, rfl, known⟩ := fulfils
    exact ⟨place, rfl, Eq.trans same known⟩

theorem fulfils_place (t : Store κ) (sight : Sight κ) :
    (t.place sight).2.Fulfils sight (t.place sight).1 := by
  cases sight with
  | kept value => rfl
  | global made => exact ⟨_, rfl, global_eq_ok.mpr (by simp [place])⟩
  | adapter made => exact ⟨_, rfl, function_eq_ok.mpr (by simp [place])⟩

theorem global_place {g : GlobalId} {global : Global} (known : t.global g = .ok global)
    (sight : Sight κ) : (t.place sight).2.global g = .ok global := by
  cases sight with
  | kept | adapter => exact known
  | global made => exact global_eq_ok.mpr (getElem?_push_of_some (global_eq_ok.mp known))

theorem function_place {f : FunctionId} {function : Function κ} (known : t.function f = .ok function)
    (sight : Sight κ) : (t.place sight).2.function f = .ok function := by
  cases sight with
  | kept | global => exact known
  | adapter made => exact function_eq_ok.mpr (getElem?_push_of_some (function_eq_ok.mp known))

/-- What was shown before is still what was to be shown. -/
theorem Fulfils.place (fulfils : t.Fulfils sight v) (last : Sight κ) :
    (t.place last).2.Fulfils sight v := by
  cases sight with
  | kept => exact fulfils
  | global made =>
    obtain ⟨g, same, known⟩ := fulfils
    exact ⟨g, same, global_place known last⟩
  | adapter made =>
    obtain ⟨f, same, known⟩ := fulfils
    exact ⟨f, same, function_place known last⟩

/-- What is made was not there. -/
theorem not_has_place (fresh : sight.Fresh) : ¬ t.Has (t.place sight).1 := by
  cases sight with
  | kept => exact fresh.elim
  | global made =>
    rintro ⟨global, known⟩
    exact absurd (Array.getElem?_eq_some_iff.mp (global_eq_ok.mp known)).1 (Nat.lt_irrefl _)
  | adapter made =>
    rintro ⟨function, known⟩
    exact absurd (Array.getElem?_eq_some_iff.mp (function_eq_ok.mp known)).1 (Nat.lt_irrefl _)

/-- Nothing else is made. -/
theorem has_place (has : (t.place sight).2.Has v) : t.Has v ∨ (t.place sight).1 = v := by
  cases sight with
  | kept => exact .inl has
  | global made =>
    cases v with
    | global g =>
      obtain ⟨global, known⟩ := has
      have known := global_eq_ok.mp known
      rw [place, Array.getElem?_push] at known
      split at known
      · next last => exact .inr (by rw [place, ← last])
      · exact .inl ⟨global, global_eq_ok.mpr known⟩
    | _ => exact .inl has
  | adapter made =>
    cases v with
    | function f =>
      obtain ⟨function, known⟩ := has
      have known := function_eq_ok.mp known
      rw [place, Array.getElem?_push] at known
      split at known
      · next last => exact .inr (by rw [place, ← last])
      · exact .inl ⟨function, function_eq_ok.mpr known⟩
    | _ => exact .inl has

/-! ## One import -/

/-- A value is put where the importer looks for it. -/
def settle (t : Store κ) (e : EnvironmentId) (environment : Environment) (b : ImportBinding)
    (value : Value) : Store κ :=
  match b.mode, environment.kind with
  | .live, .script => t
  | .live, .binary => t.install e b.localName value
  | .snapshot, .script => t.modifySlot b.own fun slot => slot.setSnapshot value
  | .snapshot, .binary =>
    (t.modifySlot b.own fun slot => slot.setSnapshot value).install e b.localName value

theorem objects_settle (t : Store κ) (e : EnvironmentId) (environment : Environment)
    (b : ImportBinding) (value : Value) :
    (t.settle e environment b value).globals = t.globals ∧
      (t.settle e environment b value).memories = t.memories ∧
      (t.settle e environment b value).tables = t.tables ∧
      (t.settle e environment b value).functions = t.functions := by
  unfold settle
  split <;> exact ⟨rfl, rfl, rfl, rfl⟩

theorem slot?_settle (t : Store κ) (e : EnvironmentId) (environment : Environment)
    (b : ImportBinding) (value : Value) (i : SlotId) :
    (t.settle e environment b value).slot? i = if b.mode = .snapshot ∧ b.own = i then
      (t.slot? i).map fun slot => slot.setSnapshot value else t.slot? i := by
  unfold settle
  cases mode : b.mode <;> cases kind : environment.kind
  all_goals simp only [reduceCtorEq, false_and, if_false, true_and]
  · rfl
  · exact slot?_modifySlot ..
  · exact slot?_modifySlot ..

theorem environment?_settle (t : Store κ) (e : EnvironmentId) (environment : Environment)
    (b : ImportBinding) (value : Value) (e' : EnvironmentId) :
    (t.settle e environment b value).environment? e' =
      if environment.kind = .binary ∧ e = e' then (t.environment? e').map fun before =>
        { before with entities := before.entities.put b.localName value }
      else t.environment? e' := by
  unfold settle
  cases mode : b.mode <;> cases kind : environment.kind
  all_goals simp only [reduceCtorEq, false_and, if_false, true_and]
  · exact environment?_install ..
  · rfl
  · exact environment?_install ..

theorem has_settle (t : Store κ) (e : EnvironmentId) (environment : Environment)
    (b : ImportBinding) (value : Value) : (t.settle e environment b value).Has v ↔ t.Has v := by
  obtain ⟨globals, memories, tables, functions⟩ := objects_settle t e environment b value
  cases v <;> simp only [Has, Store.global, Store.memory, Store.table, Store.function, globals,
    memories, tables, functions]

theorem Fulfils.settle (fulfils : t.Fulfils sight v) (e : EnvironmentId) (environment : Environment)
    (b : ImportBinding) (value : Value) : (t.settle e environment b value).Fulfils sight v := by
  obtain ⟨globals, _, _, functions⟩ := objects_settle t e environment b value
  cases sight <;> simpa only [Fulfils, Store.global, Store.function, globals, functions] using fulfils

/-- What an import shows is the same wherever the slot that provides it holds the same, and the
object behind the value there is the same. -/
theorem exists_outlook (genuine : s.Genuine) (environment : Environment) (b : ImportBinding) :
    ∃ outlook : Except EvalError (Sight κ), (∀ value, outlook = .ok (.kept value) → s.Has value) ∧
      ∀ t e, t.slot? b.target = s.slot? b.target →
        (∀ v, s.readSlot b.target = .ok v → s.SameBehind t v) →
          observeImport e environment b t = outlook.map fun sight =>
            ((), (t.place sight).2.settle e environment b (t.place sight).1) := by
  have reads : ∀ t : Store κ, t.slot? b.target = s.slot? b.target →
      t.readSlot b.target = s.readSlot b.target := fun t same => by
    rw [readSlot, same, ← readSlot]
  unfold observeImport settle
  cases mode : b.mode <;> cases kind : environment.kind
  · exact ⟨.ok (.kept .undefined), fun _ same => by cases same; trivial, fun _ _ _ _ => rfl⟩
  all_goals
    cases read : s.readSlot b.target with
    | error err =>
      refine ⟨.error err, nofun, fun t e same _ => ?_⟩
      rw [(reads t same).trans read]
      rfl
    | ok v => ?_
  · refine ⟨.ok (.kept v), fun _ same => by cases same; exact genuine.readSlot read, fun t e same _ => ?_⟩
    rw [(reads t same).trans read]
    rfl
  · refine ⟨.ok (.kept v), fun _ same => by cases same; exact genuine.readSlot read, fun t e same _ => ?_⟩
    rw [(reads t same).trans read]
    rfl
  · obtain ⟨sight, shows⟩ := s.exists_sight b.kind b.type v
    cases sight with
    | error reason =>
      refine ⟨.error (.linkType ⟨environment.identity, b.localName, s.ownerOf b.target, reason⟩),
        nofun, fun t e same behind => ?_⟩
      have owner : t.ownerOf b.target = s.ownerOf b.target := by rw [ownerOf, same, ← ownerOf]
      rw [(reads t same).trans read, ← owner]
      simp only [bind, Except.bind, shows t (behind v rfl)]
      rfl
    | ok sight =>
      refine ⟨.ok sight, fun value same => ?_, fun t e same behind => ?_⟩
      · cases same
        exact .of_conforms (observe_spec (shows s (.refl s v))).2
      · rw [(reads t same).trans read]
        simp only [bind, Except.bind, shows t (behind v rfl)]
        rfl

/-! ## Several imports -/

/-- Only the slots of captured imports and the entities of the importer differ, and only globals
and functions are added. -/
structure Confined (s t : Store κ) (e : EnvironmentId) (environment : Environment)
    (bs : List ImportBinding) : Prop where
  slots : ∀ i, (∀ b ∈ bs, b.mode = .snapshot → b.own ≠ i) → t.slot? i = s.slot? i
  others : ∀ e', e' ≠ e → t.environment? e' = s.environment? e'
  here : ∃ entities, t.environment? e = some { environment with entities } ∧
    ∀ name, (environment.kind = .binary → ∀ b ∈ bs, b.localName ≠ name) →
      entities.get? name = environment.entities.get? name
  globals : ∀ g global, s.global g = .ok global → t.global g = .ok global
  memories : t.memories = s.memories
  tables : t.tables = s.tables
  functions : ∀ f function, s.function f = .ok function → t.function f = .ok function

namespace Confined

theorem refl (present : s.environment? e = some environment) : s.Confined s e environment [] :=
  ⟨fun _ _ => rfl, fun _ _ => rfl, ⟨environment.entities, present, fun _ _ => rfl⟩,
    fun _ _ known => known, rfl, rfl, fun _ _ known => known⟩

theorem mono {bs' : List ImportBinding} (confined : s.Confined t e environment bs)
    (more : ∀ b ∈ bs, b ∈ bs') : s.Confined t e environment bs' where
  slots i apart := confined.slots i fun b member => apart b (more b member)
  others := confined.others
  here := by
    obtain ⟨entities, present, same⟩ := confined.here
    exact ⟨entities, present, fun name apart =>
      same name fun binary b member => apart binary b (more b member)⟩
  globals := confined.globals
  memories := confined.memories
  tables := confined.tables
  functions := confined.functions

/-- The objects behind what was there are the same. -/
theorem sameBehind (confined : s.Confined t e environment bs) (has : s.Has v) :
    s.SameBehind t v := by
  cases v with
  | global g =>
    obtain ⟨global, known⟩ := has
    exact (confined.globals g global known).trans known.symm
  | function f =>
    obtain ⟨function, known⟩ := has
    exact (confined.functions f function known).trans known.symm
  | memory m =>
    change t.memory m = s.memory m
    rw [Store.memory, confined.memories, ← Store.memory]
  | table i =>
    change t.table i = s.table i
    rw [Store.table, confined.tables, ← Store.table]
  | undefined | null | bool | number | bigint | string => trivial

/-- What was there stays. -/
theorem has (confined : s.Confined t e environment bs) (has : s.Has v) : t.Has v :=
  has.sameBehind (confined.sameBehind has)

/-- One more import is observed. -/
theorem settle (confined : s.Confined t e environment bs) (b : ImportBinding) (sight : Sight κ) :
    s.Confined ((t.place sight).2.settle e environment b (t.place sight).1) e environment
      (bs ++ [b]) := by
  obtain ⟨globals, memories, tables, functions⟩ :=
    objects_settle (t.place sight).2 e environment b (t.place sight).1
  have slots : ∀ i, (t.place sight).2.slot? i = t.slot? i := by cases sight <;> exact fun _ => rfl
  have environments : ∀ e', (t.place sight).2.environment? e' = t.environment? e' := by
    cases sight <;> exact fun _ => rfl
  refine ⟨fun i apart => ?_, fun e' other => ?_, ?_, fun g global known => ?_, ?_, ?_,
    fun f function known => ?_⟩
  · have mine : ¬ (b.mode = .snapshot ∧ b.own = i) := fun ⟨snapshot, own⟩ =>
      apart b (by simp) snapshot own
    rw [slot?_settle, if_neg mine, slots]
    exact confined.slots i fun b member => apart b (List.mem_append_left _ member)
  · rw [environment?_settle, if_neg fun same => other same.2.symm, environments]
    exact confined.others e' other
  · obtain ⟨entities, present, same⟩ := confined.here
    rw [environment?_settle, environments, present]
    by_cases binary : environment.kind = .binary
    · refine ⟨entities.put b.localName (t.place sight).1, if_pos ⟨binary, rfl⟩, fun name apart => ?_⟩
      rw [Scope.get?_put, if_neg (apart binary b (by simp))]
      exact same name fun binary b member => apart binary b (List.mem_append_left _ member)
    · refine ⟨entities, if_neg fun both => binary both.1, fun name apart => same name fun both => ?_⟩
      exact absurd both binary
  · rw [Store.global, globals, ← Store.global]
    exact global_place (confined.globals g global known) sight
  · rw [memories, ← confined.memories]
    cases sight <;> rfl
  · rw [tables, ← confined.tables]
    cases sight <;> rfl
  · rw [Store.function, functions, ← Store.function]
    exact function_place (confined.functions f function known) sight

end Confined

/-- Imports that have slots of their own and names of their own, and that are provided by
other slots. -/
structure Separate (bs : List ImportBinding) : Prop where
  owns : (bs.map (·.own)).Nodup
  names : (bs.map (·.localName)).Nodup
  targets : ∀ b ∈ bs, ∀ b' ∈ bs, b'.own ≠ b.target

theorem Separate.sublist {bs' : List ImportBinding} (separate : Separate bs)
    (part : bs'.Sublist bs) : Separate bs' where
  owns := separate.owns.sublist (part.map _)
  names := separate.names.sublist (part.map _)
  targets b member b' member' := separate.targets b (part.subset member) b' (part.subset member')

theorem Separate.perm {bs' : List ImportBinding} (separate : Separate bs) (order : bs'.Perm bs) :
    Separate bs' where
  owns := (order.map _).nodup_iff.mpr separate.owns
  names := (order.map _).nodup_iff.mpr separate.names
  targets b member b' member' := separate.targets b (order.subset member) b' (order.subset member')

/-- `t'` is `t` but for the places of what was made since `s`. Renamed, what is there in the one
is there in the other, with the same content. -/
structure Renames (s t t' : Store κ) (rename : Value → Value) : Prop where
  fixed : ∀ v, s.Has v → rename v = v
  injective : ∀ v v', t.Has v → t.Has v' → rename v = rename v' → v = v'
  onto : ∀ v', t'.Has v' → ∃ v, t.Has v ∧ rename v = v'
  globals : ∀ g global, t.global g = .ok global →
    ∃ g', rename (.global g) = .global g' ∧ t'.global g' = .ok global
  functions : ∀ f function, t.function f = .ok function →
    ∃ f', rename (.function f) = .function f' ∧ t'.function f' = .ok function
  memories : t'.memories = t.memories
  tables : t'.tables = t.tables
  slots : ∀ i, t'.slot? i = (t.slot? i).map (Slot.rename rename)
  environments : ∀ e, Option.Rel (Environment.Renamed rename) (t.environment? e) (t'.environment? e)

/-- The imports `bs` were observed one after the other since `s`, and `shown` tells what was
shown for them. -/
structure Settled (s t : Store κ) (e : EnvironmentId) (environment : Environment)
    (outlook : ImportBinding → Except EvalError (Sight κ)) (bs : List ImportBinding)
    (shown : ImportBinding → Value) : Prop where
  confined : s.Confined t e environment bs
  seen : ∀ b ∈ bs, ∃ sight, outlook b = .ok sight ∧ t.Fulfils sight (shown b) ∧
    (sight.Fresh → ¬ s.Has (shown b))
  apart : ∀ b ∈ bs, ∀ b' ∈ bs, ¬ s.Has (shown b) → shown b = shown b' → b = b'
  made : ∀ v, t.Has v → s.Has v ∨ ∃ b ∈ bs, shown b = v
  captured : ∀ b ∈ bs, b.mode = .snapshot →
    t.slot? b.own = (s.slot? b.own).map fun slot => slot.setSnapshot (shown b)
  installed : environment.kind = .binary → ∀ b ∈ bs, ∀ after, t.environment? e = some after →
    after.entities.get? b.localName = some (shown b)

namespace Settled

variable {outlook : ImportBinding → Except EvalError (Sight κ)} {shown : ImportBinding → Value}

theorem start (present : s.environment? e = some environment) (shown : ImportBinding → Value) :
    s.Settled s e environment outlook [] shown :=
  ⟨.refl present, fun _ member => absurd member List.not_mem_nil,
    fun _ member => absurd member List.not_mem_nil, fun _ has => .inl has,
    fun _ member => absurd member List.not_mem_nil,
    fun _ _ member => absurd member List.not_mem_nil⟩

section Step

variable (firm : ∀ b value, outlook b = .ok (.kept value) → s.Has value)

include firm

/-- What is shown is there. -/
theorem has_shown (settled : s.Settled t e environment outlook bs shown) {x : ImportBinding}
    (member : x ∈ bs) : t.Has (shown x) := by
  obtain ⟨sight, sees, fulfils, _⟩ := settled.seen x member
  cases sight with
  | kept value =>
    cases fulfils
    exact settled.confined.has (firm x _ sees)
  | global | adapter => exact fulfils.has trivial

/-- One more import is observed. -/
theorem step (settled : s.Settled t e environment outlook bs shown) (separate : Separate (bs ++ [b]))
    (sees : outlook b = .ok sight) :
    s.Settled ((t.place sight).2.settle e environment b (t.place sight).1) e environment outlook
      (bs ++ [b]) (Function.update shown b (t.place sight).1) := by
  have owns : ∀ x ∈ bs, x.own ≠ b.own := by
    have apart := separate.owns
    rw [List.map_append, List.nodup_append] at apart
    exact fun x member => apart.2.2 x.own (List.mem_map_of_mem member) b.own (by simp)
  have names : ∀ x ∈ bs, x.localName ≠ b.localName := by
    have apart := separate.names
    rw [List.map_append, List.nodup_append] at apart
    exact fun x member => apart.2.2 x.localName (List.mem_map_of_mem member) b.localName (by simp)
  have earlier : ∀ x ∈ bs, Function.update shown b (t.place sight).1 x = shown x := fun x member =>
    Function.update_of_ne (fun same : x = b => owns x member (by rw [same])) ..
  have last : Function.update shown b (t.place sight).1 b = (t.place sight).1 :=
    Function.update_self ..
  have slots : ∀ i, (t.place sight).2.slot? i = t.slot? i := by cases sight <;> exact fun _ => rfl
  have made : sight.Fresh → ¬ t.Has (t.place sight).1 := not_has_place
  -- What is shown last is made now, or it was there from the start.
  have apart : ∀ x ∈ bs, ¬ s.Has (shown x) → shown x ≠ (t.place sight).1 := by
    intro x member new same
    have there := settled.has_shown firm member
    rw [same] at new there
    cases sight with
    | kept value => exact new (firm b value sees)
    | global | adapter => exact absurd there (made trivial)
  refine ⟨settled.confined.settle b sight, fun x member => ?_, fun x member x' member' new same => ?_,
    fun v has => ?_, fun x member snapshot => ?_, fun binary x member after present => ?_⟩
  · rcases List.mem_append.mp member with before | only
    · obtain ⟨sight', sees', fulfils, fresh⟩ := settled.seen x before
      rw [earlier x before]
      exact ⟨sight', sees', (fulfils.place sight).settle e environment b _, fresh⟩
    · cases List.mem_singleton.mp only
      rw [last]
      exact ⟨sight, sees, (fulfils_place t sight).settle e environment b _,
        fun fresh there => made fresh (settled.confined.has there)⟩
  · rcases List.mem_append.mp member with before | only <;>
      rcases List.mem_append.mp member' with before' | only'
    · rw [earlier x before] at new same
      rw [earlier x' before'] at same
      exact settled.apart x before x' before' new same
    · cases List.mem_singleton.mp only'
      rw [earlier x before] at new same
      rw [last] at same
      exact absurd same (apart x before new)
    · cases List.mem_singleton.mp only
      rw [last] at new same
      rw [earlier x' before'] at same
      exact absurd same.symm (apart x' before' (same ▸ new))
    · rw [List.mem_singleton.mp only, List.mem_singleton.mp only']
  · rcases has_place ((has_settle ..).mp has) with before | new
    · rcases settled.made v before with there | ⟨x, member, rfl⟩
      · exact .inl there
      · exact .inr ⟨x, List.mem_append_left _ member, earlier x member⟩
    · exact .inr ⟨b, by simp, last.trans new⟩
  · rcases List.mem_append.mp member with before | only
    · rw [slot?_settle, if_neg fun both => owns x before both.2.symm, slots, earlier x before]
      exact settled.captured x before snapshot
    · cases List.mem_singleton.mp only
      rw [slot?_settle, if_pos ⟨snapshot, rfl⟩, slots, last,
        settled.confined.slots b.own fun y member _ => owns y member]
  · rw [environment?_settle, if_pos ⟨binary, rfl⟩] at present
    obtain ⟨between, there, rfl⟩ := Option.map_eq_some_iff.mp present
    have there : t.environment? e = some between := by cases sight <;> exact there
    rw [Scope.get?_put]
    rcases List.mem_append.mp member with before | only
    · rw [if_neg (names x before).symm, earlier x before]
      exact settled.installed binary x before between there
    · cases List.mem_singleton.mp only
      rw [if_pos rfl, last]

end Step

/-! ## Two orders -/

section Orders

variable {bs' : List ImportBinding} {shown' : ImportBinding → Value}
  (settled : s.Settled t e environment outlook bs shown)
  (settled' : s.Settled t' e environment outlook bs' shown') (order : bs'.Perm bs)
  (firm : ∀ b value, outlook b = .ok (.kept value) → s.Has value)

include settled settled' order

include firm

/-- Both times the same is shown that was there, or two objects are made with the same content. -/
theorem shown_cases {b : ImportBinding} (member : b ∈ bs) :
    s.Has (shown b) ∧ shown' b = shown b ∨ ¬ s.Has (shown b) ∧ ¬ s.Has (shown' b) ∧
      ∃ sight : Sight κ, sight.Fresh ∧ t.Fulfils sight (shown b) ∧ t'.Fulfils sight (shown' b) := by
  obtain ⟨sight, sees, fulfils, fresh⟩ := settled.seen b member
  obtain ⟨_, sees', fulfils', fresh'⟩ := settled'.seen b (order.symm.subset member)
  cases sees.symm.trans sees'
  cases sight with
  | kept value => exact .inl ⟨fulfils ▸ firm b value sees, fulfils'.trans fulfils.symm⟩
  | global made =>
    exact .inr ⟨fresh trivial, fresh' trivial, .global made, trivial, fulfils, fulfils'⟩
  | adapter made =>
    exact .inr ⟨fresh trivial, fresh' trivial, .adapter made, trivial, fulfils, fulfils'⟩

/-- What is shown in one order can be renamed to what is shown in the other. -/
theorem exists_rename : ∃ rename : Value → Value,
    (∀ v, s.Has v → rename v = v) ∧ ∀ b ∈ bs, rename (shown b) = shown' b := by
  classical
  refine ⟨fun v => if new : ¬ s.Has v ∧ ∃ b ∈ bs, shown b = v then shown' new.2.choose else v,
    fun v there => dif_neg fun new => new.1 there, fun b member => ?_⟩
  beta_reduce
  rcases settled.shown_cases settled' order firm member with ⟨there, same⟩ | ⟨fresh, _⟩
  · rw [dif_neg fun new => new.1 there, same]
  · have new : ¬ s.Has (shown b) ∧ ∃ x ∈ bs, shown x = shown b := ⟨fresh, b, member, rfl⟩
    obtain ⟨member', same⟩ := new.2.choose_spec
    rw [dif_pos new, settled.apart _ member' b member (by rwa [same]) same]

section Renaming

variable {rename : Value → Value} (fixed : ∀ v, s.Has v → rename v = v)
  (renames : ∀ b ∈ bs, rename (shown b) = shown' b)

include fixed renames

/-- Whatever is there was there from the start, or it was made for one import. -/
theorem has_cases (has : t.Has v) : s.Has v ∧ rename v = v ∨
    ∃ b ∈ bs, shown b = v ∧ rename v = shown' b ∧ ¬ s.Has (shown' b) := by
  by_cases there : s.Has v
  · exact .inl ⟨there, fixed v there⟩
  obtain ⟨b, member, rfl⟩ := (settled.made v has).resolve_left there
  rcases settled.shown_cases settled' order firm member with ⟨there', _⟩ | ⟨_, fresh, _⟩
  · exact absurd there' there
  · exact .inr ⟨b, member, rfl, renames b member, fresh⟩

theorem rename_injective {v' : Value} (has : t.Has v) (has' : t.Has v')
    (same : rename v = rename v') : v = v' := by
  rcases settled.has_cases settled' order firm fixed renames has with
      ⟨there, here⟩ | ⟨b, member, rfl, new, fresh⟩ <;>
    rcases settled.has_cases settled' order firm fixed renames has' with
      ⟨there', here'⟩ | ⟨b', member', rfl, new', fresh'⟩
  · rw [← here, same, here']
  · rw [here, new'] at same
    exact absurd (same ▸ there) fresh'
  · rw [here', new] at same
    exact absurd (same ▸ there') fresh
  · rw [new, new'] at same
    have one := settled'.apart b (order.symm.subset member) b' (order.symm.subset member') fresh same
    rw [one]

/-- What a value is, it is under its other name as well. -/
theorem fulfils_rename (sight : Sight κ) (fulfils : t.Fulfils sight v) (fresh : sight.Fresh) :
    t'.Fulfils sight (rename v) := by
  by_cases there : s.Has v
  · rw [fixed v there]
    have before := fulfils.sameBehind (settled.confined.sameBehind there).symm
    exact before.sameBehind (settled'.confined.sameBehind there)
  obtain ⟨b, member, rfl⟩ := (settled.made v (fulfils.has fresh)).resolve_left there
  rw [renames b member]
  rcases settled.shown_cases settled' order firm member with
    ⟨old, _⟩ | ⟨_, _, sight', fresh', shows, shows'⟩
  · exact absurd old there
  · cases fulfils.unique shows fresh fresh'
    exact shows'

omit firm in
theorem rename_slot (genuine : s.Genuine) (i : SlotId) :
    t'.slot? i = (t.slot? i).map (Slot.rename rename) := by
  by_cases captured : ∃ b ∈ bs, b.mode = .snapshot ∧ b.own = i
  · obtain ⟨b, member, snapshot, rfl⟩ := captured
    rw [settled.captured b member snapshot, settled'.captured b (order.symm.subset member) snapshot,
      Option.map_map]
    congr 1
    funext slot
    simp only [Function.comp, Slot.rename, Slot.setSnapshot, SlotContent.rename, renames b member]
  · have apart : ∀ b ∈ bs, b.mode = .snapshot → b.own ≠ i := fun b member snapshot own =>
      captured ⟨b, member, snapshot, own⟩
    rw [settled.confined.slots i apart, settled'.confined.slots i fun b member =>
      apart b (order.subset member)]
    cases known : s.slot? i with
    | none => rfl
    | some slot =>
      exact congrArg some (Slot.rename_eq_self fun value held =>
        fixed value (genuine.slots i slot value known held)).symm

omit firm in
theorem rename_environment (present : s.environment? e = some environment) (genuine : s.Genuine)
    (e' : EnvironmentId) :
    Option.Rel (Environment.Renamed rename) (t.environment? e') (t'.environment? e') := by
  by_cases here : e' = e
  · subst here
    obtain ⟨entities, known, same⟩ := settled.confined.here
    obtain ⟨entities', known', same'⟩ := settled'.confined.here
    rw [known, known']
    refine .some ⟨entities', rfl, fun name => ?_⟩
    by_cases named : environment.kind = .binary ∧ ∃ b ∈ bs, b.localName = name
    · obtain ⟨binary, b, member, rfl⟩ := named
      have shows := settled.installed binary b member _ known
      have shows' := settled'.installed binary b (order.symm.subset member) _ known'
      rw [shows', shows, Option.map_some, renames b member]
    · have apart : environment.kind = .binary → ∀ b ∈ bs, b.localName ≠ name :=
        fun binary b member same => named ⟨binary, b, member, same⟩
      rw [same name apart, same' name fun binary b member => apart binary b (order.subset member)]
      cases found : environment.entities.get? name with
      | none => rfl
      | some value =>
        exact congrArg some (fixed value (genuine.entities e' environment name value present found)).symm
  · rw [settled.confined.others e' here, settled'.confined.others e' here]
    cases known : s.environment? e' with
    | none => exact .none
    | some other =>
      refine .some ⟨other.entities, rfl, fun name => ?_⟩
      cases found : other.entities.get? name with
      | none => rfl
      | some value =>
        exact congrArg some (fixed value (genuine.entities e' other name value known found)).symm

end Renaming

/-- Two orders come to the same, but for the places of what is made. -/
theorem exists_renames (present : s.environment? e = some environment) (genuine : s.Genuine) :
    ∃ rename, s.Renames t t' rename := by
  obtain ⟨rename, fixed, renames⟩ := settled.exists_rename settled' order firm
  have confined := settled.confined
  have confined' := settled'.confined
  have content {v : Value} := settled.fulfils_rename (v := v) settled' order firm fixed renames
  refine ⟨rename, fixed, fun _ _ => settled.rename_injective settled' order firm fixed renames,
    fun v' has => ?_, fun g global known => content (.global global) ⟨g, rfl, known⟩ trivial,
    fun f function known => content (.adapter function) ⟨f, rfl, known⟩ trivial,
    confined'.memories.trans confined.memories.symm, confined'.tables.trans confined.tables.symm,
    settled.rename_slot settled' order fixed renames genuine,
    settled.rename_environment settled' order fixed renames present genuine⟩
  rcases settled'.made v' has with there | ⟨b, member, rfl⟩
  · exact ⟨v', confined.has there, fixed v' there⟩
  · have member := order.subset member
    exact ⟨shown b, settled.has_shown firm member, renames b member⟩

end Orders
end Settled
end Store

namespace World

open Store

variable {e : EnvironmentId} {environment : Environment} {bs bs' : List ImportBinding}
  {w : World κ σ}

/-- Observes imports of a module in a given order. -/
def observeInOrder (e : EnvironmentId) (environment : Environment) (bs : List ImportBinding) :
    Run (World κ σ) Unit :=
  bs.forM fun b => change (observeImport e environment b)

/-- The import step takes the imports in the order in which they are bound. -/
theorem observeImports_eq (e : EnvironmentId) (environment : Environment) :
    (observeImports e environment : Run (World κ σ) Unit) =
      observeInOrder e environment environment.imports.values := rfl

/-- Observing imports always comes to an end. -/
theorem exists_observeInOrder (e : EnvironmentId) (environment : Environment)
    (bs : List ImportBinding) (w : World κ σ) :
    ∃ result w', observeInOrder e environment bs w = (some result, w') := by
  unfold observeInOrder
  induction bs generalizing w with
  | nil => exact ⟨.ok (), w, rfl⟩
  | cons b rest ih =>
    rw [Run.forM_cons_apply, Run.bind_apply]
    cases result : observeImport e environment b w.store with
    | error err => exact ⟨.error err, w, by rw [change, result]⟩
    | ok pair =>
      obtain ⟨result', w', ran⟩ := ih (w.become pair.2)
      exact ⟨result', w', by rw [change, result]; exact ran⟩

section Outlook

variable {outlook : ImportBinding → Except EvalError (Sight κ)}
  (firm : ∀ b value, outlook b = .ok (.kept value) → w.store.Has value)
  (agrees : ∀ b t e, t.slot? b.target = w.store.slot? b.target →
    (∀ v, w.store.readSlot b.target = .ok v → w.store.SameBehind t v) →
      observeImport e environment b t = (outlook b).map fun sight =>
        ((), (t.place sight).2.settle e environment b (t.place sight).1))
  (present : w.store.environment? e = some environment) (genuine : w.store.Genuine)
  (separate : Separate bs)

include firm agrees present genuine separate

/-- When imports have been observed, each was shown what could be shown at first. When they could
not all be observed, there is one for which nothing could. -/
theorem ends_observeInOrder : (observeInOrder e environment bs : Run (World κ σ) Unit).Ends w
    (fun _ w' => ∃ shown, w.store.Settled w'.store e environment outlook bs shown)
    fun _ w' => (∃ b ∈ bs, ∃ err, outlook b = .error err) ∧
      w.store.Confined w'.store e environment bs := by
  let reached : List ImportBinding → World κ σ → Prop := fun first w' =>
    ∃ shown, w.store.Settled w'.store e environment outlook first shown
  have whole : (observeInOrder e environment bs : Run (World κ σ) Unit).Ends w (fun _ => reached bs)
      fun _ w' => (∃ b ∈ bs, ∃ err, outlook b = .error err) ∧
        w.store.Confined w'.store e environment bs := by
    refine .forM ⟨fun _ => .undefined, .start present _⟩ fun first b rest parts w' settled => ?_
    obtain ⟨shown, settled⟩ := settled
    have mine : b ∈ bs := by simp [parts]
    have earlier : ∀ x ∈ first, x ∈ bs := fun x member => by simp [parts, member]
    have made := agrees b w'.store e
      (settled.confined.slots b.target fun x member _ => separate.targets b mine x (earlier x member))
      fun v read => settled.confined.sameBehind (genuine.readSlot read)
    apply ends_change
    · intro _ s ran
      rw [made] at ran
      cases sees : outlook b with
      | error err =>
        rw [sees] at ran
        cases ran
      | ok sight =>
        rw [sees] at ran
        cases ran
        have part : (first ++ [b]).Sublist bs := by simp [parts]
        exact ⟨_, settled.step firm (separate.sublist part) sees⟩
    · intro err refused
      rw [made] at refused
      cases sees : outlook b with
      | error err => exact ⟨⟨b, mine, err, sees⟩, settled.confined.mono earlier⟩
      | ok sight =>
        rw [sees] at refused
        cases refused
  exact whole

/-- Imports cannot all be observed if there is one for which nothing can be shown. -/
theorem observeInOrder_fails_iff :
    (∃ err w', observeInOrder e environment bs w = (some (.error err), w')) ↔
      ∃ b ∈ bs, ∃ err, outlook b = .error err := by
  have ends := ends_observeInOrder firm agrees present genuine separate
  refine ⟨fun ⟨err, w', ran⟩ => (ends.failed err w' ran).1, fun ⟨b, member, err, blind⟩ => ?_⟩
  obtain ⟨result | _, w', ran⟩ := exists_observeInOrder e environment bs w
  · exact ⟨result, w', ran⟩
  · obtain ⟨shown, settled⟩ := ends.done () w' ran
    obtain ⟨sight, sees, _⟩ := settled.seen b member
    cases blind.symm.trans sees

end Outlook

/-- What comes of the imports of a module in the order `bs`, and in the order `bs'`. -/
structure OrderFree (e : EnvironmentId) (environment : Environment) (bs bs' : List ImportBinding)
    (w : World κ σ) : Prop where
  /-- The step comes to an end. -/
  ends : ∃ result w', observeInOrder e environment bs w = (some result, w')
  /-- It fails in one order if and only if it does in the other. -/
  fails : (∃ err w', observeInOrder e environment bs w = (some (.error err), w')) ↔
    ∃ err w', observeInOrder e environment bs' w = (some (.error err), w')
  /-- If it succeeds, both orders come to the same, but for the places of what is made. -/
  same : ∀ w₁ w₂, observeInOrder e environment bs w = (some (.ok ()), w₁) →
    observeInOrder e environment bs' w = (some (.ok ()), w₂) →
      ∃ rename, w.store.Renames w₁.store w₂.store rename
  /-- Whether it succeeds or fails, it changes slots and entities of the module only. -/
  confined : ∀ result w', observeInOrder e environment bs w = (some result, w') →
    w.store.Confined w'.store e environment bs

/-- Imports that are separate may be observed in any order. -/
theorem orderFree (present : w.store.environment? e = some environment) (genuine : w.store.Genuine)
    (separate : Separate bs) (order : bs'.Perm bs) : OrderFree e environment bs bs' w := by
  choose outlook firm agrees using fun b => exists_outlook genuine environment b
  have ends := ends_observeInOrder firm agrees present genuine separate
  have ends' := ends_observeInOrder firm agrees present genuine (separate.perm order)
  refine ⟨exists_observeInOrder e environment bs w, ?_, fun w₁ w₂ ran ran' => ?_,
    fun result w' ran => ?_⟩
  · rw [observeInOrder_fails_iff firm agrees present genuine separate,
      observeInOrder_fails_iff firm agrees present genuine (separate.perm order)]
    exact exists_congr fun b => and_congr_left' order.mem_iff.symm
  · obtain ⟨shown, settled⟩ := ends.done () w₁ ran
    obtain ⟨shown', settled'⟩ := ends'.done () w₂ ran'
    exact settled.exists_renames settled' order firm present genuine
  · cases result with
    | error err => exact (ends.failed err w' ran).2
    | ok _ =>
      obtain ⟨shown, settled⟩ := ends.done () w' ran
      exact settled.confined

end World
end MixedModules
