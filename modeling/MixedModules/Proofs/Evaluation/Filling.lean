import MixedModules.Proofs.Evaluation.Permanence

/-! Running a module fills what is its own.

The names of its imports and definitions and the slots that only it fills are vacant when
it starts. Each step of the run fills some of them that no step before has filled, so at
every moment of the run all that was there before is left as it was. -/
namespace MixedModules

variable {κ σ α β : Type} {e : EnvironmentId} {environment : Environment} {record : Record κ}
  {names names' : List String} {slots slots' : List SlotId}

/-- The slots that a binary module gives its exports when all of it is made. The exports
of a script module are its own bindings, which code assigns. -/
def Environment.published (environment : Environment) : List SlotId :=
  match environment.kind with
  | .script => []
  | .binary => environment.exports.values

theorem Environment.published_of_binary (binary : environment.kind = .binary) :
    environment.published = environment.exports.values := by
  rw [Environment.published, binary]

/-- The slots that only the module itself fills: those of its captured imports, and those
that it publishes. -/
def Environment.reserved (environment : Environment) : List SlotId :=
  environment.imports.values.map (·.own) ++ environment.published

/-- The names of what a record defines. -/
def Record.defined (record : Record κ) : List String :=
  match record.body with
  | .script _ => []
  | .binary body => body.definitions.map (·.1)

/-- The names under which a module may have entities: those of its imports and of its
definitions. -/
def Environment.entitled (environment : Environment) (record : Record κ) : List String :=
  environment.imports.values.map (·.localName) ++ record.defined

namespace World

variable {w w' w'' : World κ σ}

/-- A module fills names and slots on the way from one world to another, and all that is
there at any moment of it stays. -/
structure Filling (e : EnvironmentId) (names : List String) (slots : List SlotId)
    (w w' : World κ σ) : Prop where
  leads : Leads Store.Fixes w w'
  fills : w.store.Fills e names slots w'.store

namespace Filling

theorem mono (filling : Filling e names slots w w') (more : names ⊆ names')
    (more' : slots ⊆ slots') : Filling e names' slots' w w' :=
  ⟨filling.leads, filling.fills.mono more more'⟩

theorem trans (first : Filling e names slots w w') (second : Filling e names slots w' w'') :
    Filling e names slots w w'' :=
  ⟨first.leads.trans Store.respected_fixes second.leads, first.fills.trans second.fills⟩

end Filling

/-- A run of the module of `e` that fills names and slots wherever these are vacant. -/
def Fitted (e : EnvironmentId) (environment : Environment) (names : List String)
    (slots : List SlotId) (x : Run (World κ σ) α) : Prop :=
  ∀ w, w.store.Shows e environment → w.store.Vacant e names slots →
    Filling e names slots w (x w).2

namespace Fitted

/-- What acts through operations only fits anywhere. -/
theorem of_through {x : Run (World κ σ) α} (fixes : Through Store.Fixes x)
    (fills : Through (Store.Fills e [] []) x) : Fitted e environment [] [] x :=
  fun w _ _ => ⟨fixes w, (fills w).present⟩

theorem of_run (embedder : Embedder κ σ) (depth : Nat) (p : Program κ σ α) :
    Fitted e environment [] [] (p.run (Calls.ofDepth embedder depth)) :=
  .of_through
    (through_run Store.respected_fixes (through_ofDepth Store.respected_fixes embedder depth) p)
    (through_run (Store.respected_fills e)
      (through_ofDepth (Store.respected_fills e) embedder depth) p)

theorem change {step : Change κ α}
    (fills : ∀ s s' a, s.Shows e environment → step s = .ok (a, s') → s.Fills e names slots s') :
    Fitted e environment names slots (change step : Run (World κ σ) α) := by
  intro w shows vacant
  refine ⟨leads_change Store.respected_fixes fun a s ran =>
    (fills w.store s a shows ran).fixes vacant, ?_⟩
  unfold World.change
  cases result : step w.store with
  | error e => exact .refl w.store
  | ok pair =>
    obtain ⟨a, s⟩ := pair
    exact fills w.store s a shows result

theorem pure (a : α) : Fitted e environment [] [] (pure a : Run (World κ σ) α) :=
  .of_through (through_pure Store.respected_fixes a) (through_pure (Store.respected_fills e) a)

theorem reading (read : Store κ → Except EvalError α) :
    Fitted e environment [] [] (reading read : Run (World κ σ) α) :=
  .of_through (through_reading Store.respected_fixes read)
    (through_reading (Store.respected_fills e) read)

/-- What comes first leaves vacant what comes later fills. -/
theorem bind {x : Run (World κ σ) α} {next : α → Run (World κ σ) β}
    (first : Fitted e environment names slots x)
    (second : ∀ a w w', w.store.Shows e environment → x w = (some (.ok a), w') →
      Fitted e environment names' slots' (next a))
    (apart : (names ++ names').Nodup) (apart' : (slots ++ slots').Nodup) :
    Fitted e environment (names ++ names') (slots ++ slots') (x >>= next) := by
  intro w shows vacant
  have here := (first w shows (vacant.mono (by simp) (by simp))).mono
    (List.subset_append_left names names') (List.subset_append_left slots slots')
  have fills := first w shows (vacant.mono (by simp) (by simp))
  rw [Run.bind_apply]
  rcases result : x w with ⟨_ | _ | a, w'⟩ <;> rw [result] at here fills
  · exact here
  · exact here
  · have left : w'.store.Vacant e names' slots' := fills.fills.vacant
      (vacant.mono (by simp) (by simp))
      (fun _ name later early => (List.nodup_append.mp apart).2.2 name early name later rfl)
      fun i later early => (List.nodup_append.mp apart').2.2 i early i later rfl
    have rest := second a w w' shows result w' (shows.kept fills.fills.grows) left
    exact here.trans (rest.mono (List.subset_append_right names names')
      (List.subset_append_right slots slots'))

/-- Steps one after the other, each with names and slots of its own. -/
theorem forM {xs : List α} {f : α → Run (World κ σ) Unit} {names : α → List String}
    {slots : α → List SlotId} (each : ∀ x ∈ xs, Fitted e environment (names x) (slots x) (f x))
    (apart : (xs.flatMap names).Nodup) (apart' : (xs.flatMap slots).Nodup) :
    Fitted e environment (xs.flatMap names) (xs.flatMap slots) (xs.forM f) := by
  induction xs with
  | nil => exact .pure ()
  | cons x rest ih =>
    rw [List.flatMap_cons] at apart apart'
    refine (each x List.mem_cons_self).bind (fun _ _ _ _ _ => ?_) apart apart'
    exact ih (fun y member => each y (List.mem_cons_of_mem x member))
      (List.nodup_append.mp apart).2.1 (List.nodup_append.mp apart').2.1

/-- Changes that each fill one name. -/
theorem forM_change {xs : List α} {step : α → Change κ Unit} (name : α → String)
    (fills : ∀ x s s', step x s = .ok ((), s') → s.Fills e [name x] [] s')
    (apart : (xs.map name).Nodup) :
    Fitted e environment (xs.map name) [] (xs.forM fun x => World.change (step x) :
      Run (World κ σ) Unit) := by
  have none : (xs.flatMap fun _ => ([] : List SlotId)) = [] := by simp
  rw [List.map_eq_flatMap] at apart ⊢
  rw [← none]
  exact .forM (fun x _ => .change fun s s' _ _ ran => fills x s s' ran) apart (by rw [none]; exact .nil)

/-- Steps that fill nothing. -/
theorem forM_nothing {xs : List α} {f : α → Run (World κ σ) Unit}
    (each : ∀ x ∈ xs, Fitted e environment [] [] (f x)) :
    Fitted e environment [] [] (xs.forM f) := by
  have none : ∀ β : Type, (xs.flatMap fun _ => ([] : List β)) = [] := by simp
  have fitted : Fitted e environment (xs.flatMap fun _ => []) (xs.flatMap fun _ => []) (xs.forM f) :=
    .forM each (by rw [none]; exact .nil) (by rw [none]; exact .nil)
  rwa [none, none] at fitted

/-- Something that fills nothing comes before something else. -/
theorem after {x : Run (World κ σ) α} {next : α → Run (World κ σ) β}
    (first : Fitted e environment [] [] x)
    (second : ∀ a w w', w.store.Shows e environment → x w = (some (.ok a), w') →
      Fitted e environment names slots (next a))
    (apart : names.Nodup) (apart' : slots.Nodup) :
    Fitted e environment names slots (x >>= next) :=
  first.bind second apart apart'

end Fitted

/-! ## The whole module -/

theorem fitted_observeImports
    (named : (environment.imports.values.map (·.localName)).Nodup)
    (apart : (environment.imports.values.map (·.own)).Nodup) :
    Fitted e environment (environment.imports.values.map (·.localName))
      (environment.imports.values.map (·.own))
      (observeImports e environment : Run (World κ σ) Unit) := by
  rw [List.map_eq_flatMap] at named apart
  rw [List.map_eq_flatMap, List.map_eq_flatMap]
  exact .forM (fun b _ => .change fun _ _ _ _ ran => Store.fills_observeImport ran) named apart

theorem fitted_enterDeadZones : Fitted e environment [] []
    (enterDeadZones environment : Run (World κ σ) Unit) := by
  refine .forM_nothing fun i member => .change fun s s' _ shows ran => ?_
  cases ran
  obtain ⟨entities, known⟩ := shows
  exact Store.fills_modifySlot Store.enterDeadZone_content (.inl ⟨e, _, known, member⟩)

/-- What a binary module does after its imports and before its exports. -/
def define (calls : Calls κ σ) (e : EnvironmentId) (identity : String) (body : BinaryBody κ) :
    Run (World κ σ) Unit := do
  body.globals.forM fun d => change (Store.defineGlobal e d)
  body.memories.forM fun d => change (Store.defineMemory e d)
  body.tables.forM fun d => change (Store.defineTable e d)
  body.functions.forM fun d => change (Store.defineFunction e d)
  body.data.forM fun segment => change (Store.applyData e identity segment)
  body.elements.forM fun segment => applyElements e identity segment
  match body.start with
  | some name => do
    let _ ← (Program.invokeName e name []).run calls
  | none => pure ()

/-- Exports come last. -/
theorem instantiate_eq (calls : Calls κ σ) (e : EnvironmentId) (identity : String)
    (record : Record κ) (body : BinaryBody κ) :
    instantiate calls e identity record body =
      (define calls e identity body >>= fun _ => change (Store.publishAll e record.exports)) := by
  unfold instantiate define
  cases body.start <;> simp only [bind_assoc, pure_bind]

theorem fitted_define (interpreter : Interpreter κ σ) (identity : String) {body : BinaryBody κ}
    (distinct : (body.definitions.map (·.1)).Nodup) :
    Fitted e environment (body.definitions.map (·.1)) []
      (define interpreter.calls e identity body : Run (World κ σ) Unit) := by
  have parts : body.definitions.map (·.1) = body.globals.map (·.name) ++
      (body.memories.map (·.name) ++ (body.tables.map (·.name) ++
        (body.functions.map (·.name) ++ []))) := by
    simp [BinaryBody.definitions, Function.comp_def]
  rw [parts] at distinct ⊢
  obtain ⟨globals, distinct', _⟩ := List.nodup_append.mp distinct
  obtain ⟨memories, distinct'', _⟩ := List.nodup_append.mp distinct'
  obtain ⟨tables, distinct''', _⟩ := List.nodup_append.mp distinct''
  obtain ⟨functions, none, _⟩ := List.nodup_append.mp distinct'''
  have elements : ∀ segment, Fitted e environment [] []
      (applyElements e identity segment : Run (World κ σ) Unit) := by
    intro segment
    unfold applyElements
    refine .after (.reading _) (fun t _ _ _ _ => ?_) .nil .nil
    exact .forM_nothing fun entry _ => .change fun _ _ _ _ ran =>
      (Store.sameBindings_applyElement ran).fills
  unfold define
  refine (Fitted.forM_change GlobalDef.name (fun _ _ _ => Store.fills_defineGlobal) globals).bind
    (fun _ _ _ _ _ => ?_) distinct .nil
  refine (Fitted.forM_change SizedDef.name (fun _ _ _ => Store.fills_defineMemory) memories).bind
    (fun _ _ _ _ _ => ?_) distinct' .nil
  refine (Fitted.forM_change SizedDef.name (fun _ _ _ => Store.fills_defineTable) tables).bind
    (fun _ _ _ _ _ => ?_) distinct'' .nil
  refine (Fitted.forM_change FuncDef.name (fun _ _ _ => Store.fills_defineFunction) functions).bind
    (fun _ _ _ _ _ => ?_) distinct''' .nil
  refine .after (.forM_nothing fun segment _ => .change fun _ _ _ _ ran =>
    (Store.sameBindings_applyData ran).fills) (fun _ _ _ _ _ => ?_) none .nil
  refine .after (.forM_nothing fun segment _ => elements segment) (fun _ _ _ _ _ => ?_) none .nil
  cases body.start with
  | none => exact .pure ()
  | some name => exact .after (.of_run _ _ _) (fun _ _ _ _ _ => .pure ()) none .nil

theorem fitted_instantiate (interpreter : Interpreter κ σ) {identity : String} {body : BinaryBody κ}
    (distinct : (body.definitions.map (·.1)).Nodup) (apart : environment.exports.values.Nodup) :
    Fitted e environment (body.definitions.map (·.1)) environment.exports.values
      (instantiate interpreter.calls e identity record body : Run (World κ σ) Unit) := by
  have last : Fitted e environment [] environment.exports.values
      (World.change (Store.publishAll e record.exports) : Run (World κ σ) Unit) :=
    .change fun _ _ _ shows ran => Store.fills_publishAll shows ran
  have names := List.append_nil (body.definitions.map (·.1))
  rw [instantiate_eq, ← names]
  exact (fitted_define interpreter identity distinct).bind (fun _ _ _ _ _ => last)
    (by rwa [names]) (by rwa [List.nil_append])

/-- Running a module fills the names it is entitled to and the slots reserved for it. -/
theorem fitted_runModule (interpreter : Interpreter κ σ) (kind : environment.kind = record.kind)
    (distinct : (environment.entitled record).Nodup) (apart : environment.reserved.Nodup) :
    Fitted e environment (environment.entitled record) environment.reserved
      (runModule interpreter e record) := by
  unfold runModule
  refine .after (.reading _) (fun there w w' shows ran => ?_) distinct apart
  obtain ⟨known, _⟩ := reading_eq_ok ran
  obtain ⟨entities, known'⟩ := shows
  cases (Store.environment_eq_ok.mp known).symm.trans known'
  unfold Environment.entitled at distinct ⊢
  unfold Environment.reserved at apart ⊢
  have observes : Fitted e environment (environment.imports.values.map (·.localName))
      (environment.imports.values.map (·.own))
      (observeImports e { environment with entities } : Run (World κ σ) Unit) :=
    fitted_observeImports (List.nodup_append.mp distinct).1 (List.nodup_append.mp apart).1
  refine observes.bind (fun _ _ _ _ _ => ?_) distinct apart
  unfold Environment.published at apart ⊢
  rw [kind] at apart ⊢
  unfold Record.kind at apart ⊢
  unfold Record.defined at distinct ⊢
  cases shape : record.body with
  | script code =>
    rw [shape] at distinct apart
    simp only
    refine .after fitted_enterDeadZones (fun _ _ _ _ _ => ?_) .nil .nil
    cases code with
    | none => exact .pure ()
    | some code => exact .of_run _ _ _
  | binary body =>
    rw [shape] at distinct apart
    exact fitted_instantiate interpreter (List.nodup_append.mp distinct).2.1
      (List.nodup_append.mp apart).2.1

end World
end MixedModules
