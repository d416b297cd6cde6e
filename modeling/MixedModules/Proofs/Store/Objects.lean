import MixedModules.Proofs.Store.Conformance

/-! What operations do to objects.

An operation makes an object, changes one, or leaves all of them alone. One that fails leaves
everything as it is, so that what an operation makes of an object is what the object's own
attempt makes of it, and the object as it was if the attempt fails. -/
namespace MixedModules

/-- What there is after an attempt: what it made, or what there was if it failed. -/
def attempted {ε α : Type} (before : α) : Except ε α → α
  | .ok after => after
  | .error _ => before

variable {κ σ : Type}

namespace Operation

/-- The memories after an operation. -/
def onMemories (row : Array Memory) : Operation κ → Array Memory
  | newMemory limits => attempted row ((Memory.new limits).map row.push)
  | growMemory m delta => row.modify m.index fun memory =>
      attempted memory ((memory.grow delta).map Prod.snd)
  | writeMemory m offset bytes => row.modify m.index fun memory =>
      attempted memory (memory.write offset bytes)
  | _ => row

/-- The tables after an operation. -/
def onTables (row : Array Table) : Operation κ → Array Table
  | newTable limits => attempted row ((Table.new limits).map row.push)
  | writeTable t index element => row.modify t.index fun table =>
      attempted table (table.set index element)
  | growTable t delta element => row.modify t.index fun table =>
      attempted table ((table.grow delta element).map Prod.snd)
  | _ => row

/-- The globals after an operation, but for a new one. -/
def onGlobals (row : Array Global) : Operation κ → Array Global
  | writeGlobal g value => row.modify g.index fun global => attempted global (global.set value)
  | _ => row

end Operation

namespace Store

variable {s s' : Store κ} {o : Operation κ}

/-- The store after an operation. -/
def after (s : Store κ) (o : Operation κ) : Store κ := attempted s ((o.perform s).map Prod.snd)

/-- The store after operations one after the other. -/
def afterAll (s : Store κ) (os : List (Operation κ)) : Store κ := os.foldl after s

theorem afterAll_append (s : Store κ) (os os' : List (Operation κ)) :
    s.afterAll (os ++ os') = (s.afterAll os).afterAll os' := List.foldl_append

theorem after_of_ok {a : o.Answer} (ran : o.perform s = .ok (a, s')) : s.after o = s' := by
  rw [after, ran]
  rfl

theorem after_of_error {e : EvalError} (ran : o.perform s = .error e) : s.after o = s := by
  rw [after, ran]
  rfl

/-- Code that comes to an operation goes on with the store after it. -/
theorem store_change (w : World κ σ) (o : Operation κ) :
    (World.change o.perform w).2.store = w.store.after o := by
  unfold World.change
  cases ran : o.perform w.store with
  | error e => exact (after_of_error ran).symm
  | ok pair => exact (after_of_ok ran).symm

/-! ## Rows of objects -/

section Rows

variable {α : Type} {row : Array α} {i j : Nat} {a : α}

/-- An object in a row to which another may be added. -/
theorem getElem?_attempted_push {ε : Type} (held : row[i]? = some a) (made : Except ε α) :
    (attempted row (made.map row.push))[i]? = some a := by
  cases made with
  | error e => exact held
  | ok b => exact getElem?_push_of_some held

/-- An object in a row of which one object is changed, which may be another one. -/
theorem getElem?_modified {here : Prop} [Decidable here] (same : here ↔ j = i)
    (held : row[i]? = some a) (change : α → α) :
    (row.modify j change)[i]? = some (if here then change a else a) := by
  rw [Array.getElem?_modify, held]
  by_cases place : j = i
  · rw [if_pos place, if_pos (same.mpr place), Option.map_some]
  · rw [if_neg place, if_neg fun place' => place (same.mp place')]

end Rows

theorem memoryId_eq_iff {m m' : MemoryId} : m' = m ↔ m'.index = m.index :=
  ⟨congrArg MemoryId.index, fun same => by cases m; cases m'; cases same; rfl⟩

theorem tableId_eq_iff {t t' : TableId} : t' = t ↔ t'.index = t.index :=
  ⟨congrArg TableId.index, fun same => by cases t; cases t'; cases same; rfl⟩

/-! ## Functions of a store -/

section Functions

private theorem modify_held {α : Type} {row : Array α} {i : Nat} {a : α} (held : row[i]? = some a)
    (change : α → α) : row.modify i change = row.setIfInBounds i (change a) := by
  obtain ⟨inside, rfl⟩ := Array.getElem?_eq_some_iff.mp held
  refine Array.ext_getElem? fun j => ?_
  rw [Array.getElem?_modify, Array.getElem?_setIfInBounds]
  split
  · next same =>
    subst same
    rw [held, Option.map_some]
  · rfl

private theorem modify_same {α : Type} {row : Array α} {i : Nat} {change : α → α}
    (same : ∀ a, row[i]? = some a → change a = a) : row.modify i change = row := by
  refine Array.ext_getElem? fun j => ?_
  rw [Array.getElem?_modify]
  split
  · next here =>
    subst here
    cases held : row[i]? with
    | none => rfl
    | some a => rw [Option.map_some, same a held]
  · rfl

/-- Nothing happens where there is no object. -/
private theorem modify_absent {α : Type} {row : Array α} {i : Nat} (absent : row[i]? = none)
    (change : α → α) : row.modify i change = row :=
  modify_same fun a held => by simp [absent] at held

/-- Nothing happens to an object when an attempt to change it fails. -/
private theorem modify_failed {ε α : Type} {row : Array α} {i : Nat} {a : α}
    {attempt : α → Except ε α} {e : ε} (held : row[i]? = some a) (failed : attempt a = .error e) :
    (row.modify i fun a => attempted a (attempt a)) = row := by
  refine modify_same fun a' here => ?_
  cases held.symm.trans here
  rw [failed]
  rfl

variable (s : Store κ)

private theorem attempted_newMemory (limits : Limits) :
    attempted s ((newMemory limits s).map Prod.snd) =
      { s with memories := attempted s.memories ((Memory.new limits).map s.memories.push) } := by
  unfold newMemory
  cases Memory.new limits <;> rfl

private theorem attempted_newTable (limits : Limits) :
    attempted s ((newTable limits s).map Prod.snd) =
      { s with tables := attempted s.tables ((Table.new limits).map s.tables.push) } := by
  unfold newTable
  cases Table.new limits <;> rfl

private theorem attempted_growMemory (m : MemoryId) (delta : Nat) :
    attempted s ((growMemory m delta s).map Prod.snd) = { s with
      memories := s.memories.modify m.index fun memory =>
        attempted memory ((memory.grow delta).map Prod.snd) } := by
  unfold growMemory memory
  cases held : s.memories[m.index]? with
  | none => rw [modify_absent held]; rfl
  | some memory =>
    simp only [bind, Except.bind]
    cases ran : memory.grow delta with
    | error f => rw [modify_failed held (by rw [ran]; rfl)]; rfl
    | ok grown => rw [modify_held held, ran]; rfl

private theorem attempted_writeMemory (m : MemoryId) (offset : Nat) (bytes : List UInt8) :
    attempted s ((writeMemory m offset bytes s).map Prod.snd) = { s with
      memories := s.memories.modify m.index fun memory =>
        attempted memory (memory.write offset bytes) } := by
  unfold writeMemory memory
  cases held : s.memories[m.index]? with
  | none => rw [modify_absent held]; rfl
  | some memory =>
    simp only [bind, Except.bind]
    cases ran : memory.write offset bytes with
    | error f => rw [modify_failed held ran]; rfl
    | ok changed => rw [modify_held held, ran]; rfl

private theorem attempted_growTable (t : TableId) (delta : Nat) (element : Option FunctionId) :
    attempted s ((growTable t delta element s).map Prod.snd) = { s with
      tables := s.tables.modify t.index fun table =>
        attempted table ((table.grow delta element).map Prod.snd) } := by
  unfold growTable table
  cases held : s.tables[t.index]? with
  | none => rw [modify_absent held]; rfl
  | some table =>
    simp only [bind, Except.bind]
    cases ran : table.grow delta element with
    | error f => rw [modify_failed held (by rw [ran]; rfl)]; rfl
    | ok grown => rw [modify_held held, ran]; rfl

private theorem attempted_writeTable (t : TableId) (index : Nat) (element : Option FunctionId) :
    attempted s ((writeTable t index element s).map Prod.snd) = { s with
      tables := s.tables.modify t.index fun table =>
        attempted table (table.set index element) } := by
  unfold writeTable table
  cases held : s.tables[t.index]? with
  | none => rw [modify_absent held]; rfl
  | some table =>
    simp only [bind, Except.bind]
    cases ran : table.set index element with
    | error f => rw [modify_failed held ran]; rfl
    | ok changed => rw [modify_held held, ran]; rfl

private theorem attempted_writeGlobal (g : GlobalId) (value : Raw) :
    attempted s ((writeGlobal g value s).map Prod.snd) = { s with
      globals := s.globals.modify g.index fun global => attempted global (global.set value) } := by
  unfold writeGlobal global
  cases held : s.globals[g.index]? with
  | none => rw [modify_absent held]; rfl
  | some global =>
    simp only [bind, Except.bind]
    cases ran : global.set value with
    | error f => rw [modify_failed held ran]; rfl
    | ok changed => rw [modify_held held, ran]; rfl

private theorem attempted_reading {α : Type} (read : Store κ → Except EvalError α) :
    attempted s ((Operation.reading read s).map Prod.snd) = s := by
  unfold Operation.reading
  cases read s <;> rfl

private theorem newGlobal_eq_ok {s' : Store κ} {type : GlobalType} {initial : Raw} {g : GlobalId}
    (ran : newGlobal type initial s = .ok (g, s')) : ∃ global,
      Global.new type initial = .ok global ∧ s' = { s with globals := s.globals.push global } := by
  unfold newGlobal at ran
  cases made : Global.new type initial with
  | error f =>
    rw [made] at ran
    cases ran
  | ok global =>
    rw [made] at ran
    cases ran
    exact ⟨global, rfl, rfl⟩

end Functions

/-! ## Operations -/

/-- What an operation does to the objects of a store. -/
structure Operates (o : Operation κ) (s s' : Store κ) : Prop where
  globals : s'.globals = o.onGlobals s.globals ∨ ∃ type initial global,
    Global.new type initial = .ok global ∧ s'.globals = s.globals.push global
  memories : s'.memories = o.onMemories s.memories
  tables : s'.tables = o.onTables s.tables

/-- A store that only differs in a global made anew, if at all. -/
private theorem operates_observe {kind : BindingKind} {type : TypeSig} {value observed : Value}
    (ran : s.observe kind type value = .ok (observed, s')) :
    Operates (.observe kind type value) s s' := by
  unfold observe at ran
  split at ran
  · unfold observeGlobal at ran
    split at ran
    · split at ran
      · split at ran
        · cases ran
          exact ⟨.inl rfl, rfl, rfl⟩
        · cases ran
      · cases ran
    · unfold globalOfPlain at ran
      split at ran
      · cases ran
      · simp only at ran
        split at ran
        all_goals first | cases ran | skip
        all_goals
          split at ran
          · split at ran
            · next made =>
              cases ran
              obtain ⟨global, new, rfl⟩ := newGlobal_eq_ok s made
              exact ⟨.inr ⟨_, _, global, new, rfl⟩, rfl, rfl⟩
            · cases ran
          · cases ran
  · cases (observeResource_eq ran).2
    exact ⟨.inl rfl, rfl, rfl⟩
  · cases (observeResource_eq ran).2
    exact ⟨.inl rfl, rfl, rfl⟩
  · unfold observeFunction at ran
    split at ran
    · split at ran
      · split at ran
        · split at ran
          · cases ran
            exact ⟨.inl rfl, rfl, rfl⟩
          · cases ran
        · cases ran
          exact ⟨.inl rfl, rfl, rfl⟩
      · cases ran
    · cases ran
  · cases ran

/-- An operation does to each object what is meant for it, and nothing where it fails. -/
theorem operates (s : Store κ) (o : Operation κ) : Operates o s (s.after o) := by
  unfold after
  cases o with
  | readGlobal | memoryLimits | readMemory | loadMemory | tableLimits | readTable | readFunction
  | describe | moduleKind | readName | readImport | readEntity | readEntityOf =>
    rw [Operation.perform, attempted_reading]
    exact ⟨.inl rfl, rfl, rfl⟩
  | newHost | newClosure => exact ⟨.inl rfl, rfl, rfl⟩
  | growMemory m delta =>
    rw [Operation.perform, attempted_growMemory]
    exact ⟨.inl rfl, rfl, rfl⟩
  | writeMemory m offset bytes =>
    rw [Operation.perform, attempted_writeMemory]
    exact ⟨.inl rfl, rfl, rfl⟩
  | writeTable t index element =>
    rw [Operation.perform, attempted_writeTable]
    exact ⟨.inl rfl, rfl, rfl⟩
  | growTable t delta element =>
    rw [Operation.perform, attempted_growTable]
    exact ⟨.inl rfl, rfl, rfl⟩
  | writeGlobal g value =>
    rw [Operation.perform, attempted_writeGlobal]
    exact ⟨.inl rfl, rfl, rfl⟩
  | newMemory limits =>
    rw [Operation.perform, attempted_newMemory]
    exact ⟨.inl rfl, rfl, rfl⟩
  | newTable limits =>
    rw [Operation.perform, attempted_newTable]
    exact ⟨.inl rfl, rfl, rfl⟩
  | newGlobal type initial =>
    rw [Operation.perform]
    cases ran : newGlobal type initial s with
    | error e => exact ⟨.inl rfl, rfl, rfl⟩
    | ok pair =>
      obtain ⟨global, made, changed⟩ := newGlobal_eq_ok s ran
      rw [Except.map, attempted, changed]
      exact ⟨.inr ⟨type, initial, global, made, rfl⟩, rfl, rfl⟩
  | observe kind type value =>
    unfold Operation.perform
    simp only
    cases result : s.observe kind type value with
    | error reason => exact ⟨.inl rfl, rfl, rfl⟩
    | ok pair => exact operates_observe result
  | assign home name value =>
    rw [Operation.perform]
    cases ran : assign home name value s with
    | error e => exact ⟨.inl rfl, rfl, rfl⟩
    | ok pair =>
      obtain ⟨_, _, _, _, changed⟩ := assign_eq_ok ran
      rw [Except.map, attempted, changed]
      exact ⟨.inl rfl, rfl, rfl⟩

end Store
end MixedModules
