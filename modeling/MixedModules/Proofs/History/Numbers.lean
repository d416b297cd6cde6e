import MixedModules.Proofs.History.Handles
import MixedModules.Proofs.Number.Wrapping

/-! Numbers on their way between script and binary modules.

An integer of a binary module becomes a value, and the value becomes the same integer again, 32
bits by way of a double and 64 bits without one. So a global of integers is left as it is when its
own value is stored in it. -/
namespace MixedModules

open Number (towardZero)

variable {κ σ ℓ : Type}

/-- An integer is what its value is converted to. -/
theorem Value.toRaw_ofRaw (number : Raw) (whole : number.type = .i32 ∨ number.type = .i64) :
    (Value.ofRaw number).toRaw number.type = .ok number := by
  cases number with
  | i32 n => exact congrArg (fun m => Except.ok (Raw.i32 m)) (Number.Double.toInt32_ofInt n)
  | i64 n => rfl
  | f32 => simp [Raw.type] at whole
  | f64 => simp [Raw.type] at whole

/-- A global that may change takes the number that it holds, and stays what it is. -/
theorem Store.writeGlobal_value {s : Store κ} {g : GlobalId} {global : Global}
    (known : s.global g = .ok global) (bounded : global.Bounded)
    (changes : global.type.isMutable = true) :
    Store.writeGlobal g global.value s = .ok ((), s) := by
  have stored : global.set global.value = .ok global := by
    unfold Global.Bounded at bounded
    simp [Global.set, changes, bounded]
  have held : s.globals[g.index]? = some global := Store.global_eq_ok.mp known
  have same : s.globals.setIfInBounds g.index global = s.globals := by
    apply Array.ext_getElem?
    intro i
    rw [Array.getElem?_setIfInBounds]
    split
    · next here =>
      subst here
      obtain ⟨inside, _⟩ := Array.getElem?_eq_some_iff.mp held
      rw [if_pos inside, held]
    · rfl
  simp only [Store.writeGlobal, known, bind, Except.bind, stored, same]

namespace World

variable {w : World κ σ} {g : GlobalId} {global : Global}

theorem run_readGlobal (calls : Calls κ σ) (known : w.store.global g = .ok global) :
    (Program.operate (.readGlobal g) : Program κ σ Global).run calls w =
      (some (.ok global), w.become w.store) := by
  rw [Program.run_operate]
  exact reading_apply known

theorem run_readGlobalValue (calls : Calls κ σ) (known : w.store.global g = .ok global) :
    (Program.readGlobalValue g).run calls w =
      (some (.ok (.ofRaw global.value)), w.become w.store) := by
  change (Program.bind (Program.operate (.readGlobal g)) _).run calls w = _
  rw [Program.run_bind, Run.bind_apply, run_readGlobal calls known]
  rfl

/-- The value is converted to the type of the global, and the number that it becomes is written. -/
theorem run_writeGlobalValue (calls : Calls κ σ) {value : Value} {number : Raw} {s : Store κ}
    (known : w.store.global g = .ok global)
    (converted : value.toRaw global.type.value = .ok number)
    (written : Store.writeGlobal g number w.store = .ok ((), s)) :
    (Program.writeGlobalValue g value).run calls w =
      (some (.ok ()), (w.become w.store).become s) := by
  change (Program.bind (Program.operate (.readGlobal g)) _).run calls w = _
  rw [Program.run_bind, Run.bind_apply, run_readGlobal calls known]
  change (Program.bind (Program.ofFault (value.toRaw global.type.value))
    fun raw => Program.operate (.writeGlobal g raw)).run calls (w.become w.store) = _
  rw [Program.run_bind, converted, Run.bind_apply]
  change ((Program.operate (.writeGlobal g number)).run calls) (w.become w.store) = _
  rw [Program.run_operate]
  exact change_apply written

/-- Storing the value of an integer global in it succeeds and changes nothing. -/
theorem run_rewrite (calls : Calls κ σ) (known : w.store.global g = .ok global)
    (bounded : global.Bounded) (changes : global.type.isMutable = true)
    (whole : global.type.value = .i32 ∨ global.type.value = .i64) :
    ∃ past, ((Program.readGlobalValue g).bind (Program.writeGlobalValue g)).run calls w =
      (some (.ok ()), { w with past }) := by
  have converted : (Value.ofRaw global.value).toRaw global.type.value = .ok global.value := by
    rw [← bounded] at whole ⊢
    exact Value.toRaw_ofRaw global.value whole
  rw [Program.run_bind, Run.bind_apply, run_readGlobalValue calls known]
  exact ⟨_, run_writeGlobalValue calls (w := w.become w.store) known converted
    (Store.writeGlobal_value known bounded changes)⟩

end World

/-- Every double wraps to the one 32-bit integer that is congruent to the whole part of its number,
or to zero if it has no number. An integer that becomes a value becomes itself again, so at any
moment of a history an integer global is left as it is when its own value is stored in it. -/
theorem Site.wraps_exact (setup : Setup κ σ ℓ) (memo : σ) (source : ℓ) (calls : List (Call κ σ ℓ)) :
    (∀ x : Number.Double, x.number? = none → x.toInt32 = 0) ∧
    (∀ (x : Number.Double) (q : ℚ), x.number? = some q → ∀ n : ℤ, n = x.toInt32.toInt ↔
      -2 ^ 31 ≤ n ∧ n < 2 ^ 31 ∧ n ≡ towardZero q [ZMOD 2 ^ 32]) ∧
    (∀ n : Int32, (Value.ofRaw (.i32 n)).toRaw .i32 = .ok (.i32 n)) ∧
    (∀ n : Int64, (Value.ofRaw (.i64 n)).toRaw .i64 = .ok (.i64 n)) ∧
    ∀ s ∈ ((start memo source).run setup calls).world.past.events,
      ∀ g global, s.global g = .ok global → global.type.isMutable = true →
        (global.type.value = .i32 ∨ global.type.value = .i64) →
        ∀ (inner : Calls κ σ) (w : World κ σ), w.store = s →
          ∃ past, ((Program.readGlobalValue g).bind (Program.writeGlobalValue g)).run inner w =
            (some (.ok ()), { w with past }) := by
  refine ⟨fun x => Number.Double.toInt32_of_number?_eq_none,
    fun x q read n => Number.Double.eq_toInt32_iff read n,
    fun n => Value.toRaw_ofRaw (.i32 n) (.inl rfl),
    fun n => Value.toRaw_ofRaw (.i64 n) (.inr rfl), ?_⟩
  rintro s told g global known changes whole inner w rfl
  have bounded := (evolving_of_run setup memo source calls).bounded w.store told
  have member := Array.mem_of_getElem? (Store.global_eq_ok.mp known)
  exact World.run_rewrite inner known (bounded.globals global member) changes whole

namespace Sample

/-- Code that makes a global of 32 bits. -/
def minting : Program Unit Unit Unit :=
  (Program.operate (.newGlobal ⟨.i32, true⟩ (.i32 (-5)))).bind fun _ => .done (.ok ())

end Sample

/-- Infinity wraps to zero, and a fraction below minus `2 ^ 32` to minus one. The global that the
code made is left as it is. -/
theorem Site.minted_exact :
    (⟨0x7FF0000000000000⟩ : Number.Double).toInt32 = 0 ∧
    (⟨0xC1F0000000180000⟩ : Number.Double).number? = some (-8589934595 / 2) ∧
    (-1 : ℤ) = (⟨0xC1F0000000180000⟩ : Number.Double).toInt32.toInt ∧
    (Value.ofRaw (.i32 (-5))).toRaw .i32 = .ok (.i32 (-5)) ∧
    ∃ s ∈ ((Site.start () ()).run Sample.setup [.act Sample.minting]).world.past.events,
      s.global ⟨0⟩ = .ok ⟨⟨.i32, true⟩, .i32 (-5)⟩ ∧
      ∀ (inner : Calls Unit Unit) (w : World Unit Unit), w.store = s →
        ∃ past, ((Program.readGlobalValue ⟨0⟩).bind (Program.writeGlobalValue ⟨0⟩)).run inner w =
          (some (.ok ()), { w with past }) := by
  have laws := Site.wraps_exact Sample.setup () () [.act Sample.minting]
  have orderly := Site.Orderly.of_run Sample.setup () () [.act Sample.minting]
  have read : (⟨0xC1F0000000180000⟩ : Number.Double).number? = some (-8589934595 / 2) := by
    decide +kernel
  have made : ((Site.start () ()).run Sample.setup [.act Sample.minting]).world.store.global ⟨0⟩ =
      .ok ⟨⟨.i32, true⟩, .i32 (-5)⟩ := rfl
  obtain ⟨unnumbered, wrapped, thirtyTwo, _, kept⟩ := laws
  refine ⟨unnumbered _ (by decide +kernel), read, (wrapped _ _ read _).mpr ?_, thirtyTwo _,
    _, orderly.present, made, kept _ orderly.present ⟨0⟩ _ made rfl (.inl rfl)⟩
  decide +kernel

end MixedModules
