import Stencil.Expansion.Interpreter

/-!
# Runs that only compute

Operators, conversions, literals and the functions of `Math` look at their operands alone: they
leave the machine as it is, and what they give is a *scalar*: null, a truth value, a number, a
character or a string.

Results:

* `Computes.bind` – such runs compose;
* `computes_binary`, `computes_callMath`, `computes_literalValue`, `computes_castTo` – what they
  give.
-/
namespace Stencil.Expansion

/-- Plain data without parts. -/
def Value.isScalar : Value → Bool
  | .null | .bool _ | .int _ | .float _ | .char _ | .string _ => true
  | _ => false

/-- The run ends in one way on every machine, leaves it as it is and needs no budget; `P` holds of
its answer. -/
def Computes {α : Type} (P : α → Prop) (run : Run α) : Prop :=
  (∃ a, P a ∧ ∀ m, run m = .ok a m) ∨ ∃ e, e ≠ .exhausted ∧ ∀ m, run m = .error e m

theorem run_bind {α β : Type} (f : Run α) (k : α → Run β) (m : Machine) :
    (f >>= k) m = match f m with
      | .ok a n => k a n
      | .error e n => .error e n := by
  change EStateM.bind f k m = _
  rw [EStateM.bind.eq_def]
  cases f m <;> rfl

theorem discard_bind {α β : Type} (f : Run α) (k : PUnit → Run β) :
    (discard f >>= k) = f >>= fun _ => k ⟨⟩ := by
  funext m
  change EStateM.bind (EStateM.map (Function.const α PUnit.unit) f) k m = _
  rw [run_bind, EStateM.bind.eq_def, EStateM.map.eq_def]
  cases f m <;> rfl

namespace Computes

variable {α β : Type} {P : α → Prop} {Q : β → Prop}

theorem pure {a : α} (h : P a) : Computes P (pure a) := .inl ⟨a, h, fun _ => rfl⟩

theorem throw {e : Stop} (h : e ≠ .exhausted) : Computes P (throw e) := .inr ⟨e, h, fun _ => rfl⟩

theorem fail (f : Fault) : Computes P (fail f) := throw nofun

theorem bind {f : Run α} {k : α → Run β} (hf : Computes P f) (hk : ∀ a, P a → Computes Q (k a)) :
    Computes Q (f >>= k) := by
  rcases hf with ⟨a, hp, ha⟩ | ⟨e, hne, he⟩
  · rcases hk a hp with ⟨b, hq, hb⟩ | ⟨e, hne, he⟩
    · refine .inl ⟨b, hq, fun m => ?_⟩
      rw [run_bind, ha]
      exact hb m
    · refine .inr ⟨e, hne, fun m => ?_⟩
      rw [run_bind, ha]
      exact he m
  · refine .inr ⟨e, hne, fun m => ?_⟩
    rw [run_bind, he]

end Computes

/-! ## Elementary runs -/

section

variable {α : Type}

theorem computes_typed (e : Except TypeFault α) : Computes (fun _ => True) (typed e) := by
  cases e with
  | ok a => exact .pure trivial
  | error f => exact .fail _

theorem computes_sound (e : Except Defect α) : Computes (fun _ => True) (sound e) := by
  cases e with
  | ok a => exact .pure trivial
  | error f => exact .throw nofun

theorem computes_argument (arguments : List Value) (index : Nat) (function : String) :
    Computes (fun v => v ∈ arguments) (argument arguments index function) := by
  unfold argument
  split
  · next v hv => exact .pure (List.mem_of_getElem? hv)
  · exact .fail _

theorem computes_childOf (n : Node) (index : Nat) :
    Computes (fun m => n.node? index = some m) (childOf n index) := by
  unfold childOf
  split
  · next m h => exact .pure h
  · exact .fail _

theorem computes_operatorOf (n : Node) : Computes (fun _ => True) (operatorOf n) := by
  unfold operatorOf
  split
  · exact .pure trivial
  · exact .fail _

theorem computes_itemAt (index : Int64) (items : List Value) :
    Computes (fun v => v ∈ items) (itemAt index items) := by
  unfold itemAt
  simp only
  split
  · next v h =>
    split at h
    · exact .pure (List.mem_of_getElem? h)
    · cases h
  · exact .fail _

end

/-! ## Scalars -/

theorem computes_literalValue (n : Node) : Computes (fun v => v.isScalar) (literalValue n) := by
  have read (v : Option Value) (t : Token) (hv : ∀ w, v = some w → w.isScalar) :
      Computes (fun v => v.isScalar) (expect (.type (.malformedLiteral t.text)) v) := by
    cases v with
    | none => exact .fail _
    | some w => exact .pure (hv w rfl)
  unfold literalValue
  split
  · exact .fail _
  · split
    · exact read _ _ (by simp only [Option.map_eq_some_iff]; rintro w ⟨_, _, rfl⟩; rfl)
    · exact read _ _ (by simp only [Option.map_eq_some_iff]; rintro w ⟨_, _, rfl⟩; rfl)
    · exact .pure rfl
    · exact read _ _ (by simp only [Option.map_eq_some_iff]; rintro w ⟨_, _, rfl⟩; rfl)
    · exact .pure rfl
    · exact .pure rfl
    · exact .pure rfl

/-- What a conversion does not change it makes a scalar. -/
theorem computes_castTo (type : String) (v : Value) :
    Computes (fun w => w = v ∨ w.isScalar) (castTo type v) := by
  unfold castTo
  split
  · exact .pure (.inr rfl)
  · exact .pure (.inr rfl)
  · exact .pure (.inr rfl)
  · exact .pure (.inr rfl)
  · exact .pure (.inr rfl)
  · exact .pure (.inr rfl)
  · split
    · exact .pure (.inr rfl)
    · exact .fail _
  · exact .bind (computes_sound _) fun _ _ => .pure (.inr rfl)
  · exact .pure (.inl rfl)

theorem computes_callMath (name : String) (arguments : List Value) :
    Computes (fun v => v.isScalar) (callMath name arguments) := by
  refine .bind (computes_argument arguments 0 _) fun first _ => ?_
  dsimp only
  split
  · split
    · exact .bind (computes_typed _) fun _ _ => .pure rfl
    · exact .bind (computes_typed _) fun _ _ => .pure rfl
  · refine .bind (computes_argument arguments 1 _) fun second _ => ?_
    split
    · exact .bind (computes_typed _) fun _ _ => .bind (computes_typed _) fun _ _ => .pure rfl
    · exact .bind (computes_typed _) fun _ _ => .bind (computes_typed _) fun _ _ => .pure rfl
  · refine .bind (computes_argument arguments 1 _) fun second _ => ?_
    split
    · exact .bind (computes_typed _) fun _ _ => .bind (computes_typed _) fun _ _ => .pure rfl
    · exact .bind (computes_typed _) fun _ _ => .bind (computes_typed _) fun _ _ => .pure rfl
  · exact .fail _

theorem isScalar_combineInts {operator : TokenKind} {a b : Int64} {v : Value}
    (h : combineInts operator a b = some (.ok v)) : v.isScalar := by
  cases operator <;> simp only [combineInts, Option.some.injEq, reduceCtorEq] at h
  all_goals first | (cases h; rfl) | (split at h <;> cases h; rfl)

theorem isScalar_combineFloats {operator : TokenKind} {a b : Float} {v : Value}
    (h : combineFloats operator a b = some v) : v.isScalar := by
  cases operator <;> simp only [combineFloats, Option.some.injEq, reduceCtorEq] at h
  all_goals cases h; rfl

theorem isScalar_compareStrings {operator : TokenKind} {a b : String} {v : Value}
    (h : compareStrings operator a b = some v) : v.isScalar := by
  cases operator <;> simp only [compareStrings, Option.some.injEq, reduceCtorEq] at h
  all_goals cases h; rfl

theorem isScalar_combineValues {operator : TokenKind} {l r v : Value}
    (h : combineValues operator l r = some (.ok v)) : v.isScalar := by
  unfold combineValues at h
  split at h
  · exact isScalar_combineInts h
  · obtain ⟨w, hw, hv⟩ := Option.map_eq_some_iff.1 h
    cases hv; exact isScalar_combineFloats hw
  · obtain ⟨w, hw, hv⟩ := Option.map_eq_some_iff.1 h
    cases hv; exact isScalar_combineFloats hw
  · obtain ⟨w, hw, hv⟩ := Option.map_eq_some_iff.1 h
    cases hv; exact isScalar_combineFloats hw
  · obtain ⟨w, hw, hv⟩ := Option.map_eq_some_iff.1 h
    cases hv; exact isScalar_compareStrings hw
  · cases h

theorem computes_binary (operator : TokenKind) (l r : Value) :
    Computes (fun v => v.isScalar) (binary operator l r) := by
  unfold binary
  split
  · exact .pure rfl
  split
  · exact .pure rfl
  split
  · exact .bind (computes_sound _) fun _ _ => .bind (computes_sound _) fun _ _ => .pure rfl
  split
  · next outcome h =>
    cases outcome with
    | error e => exact .fail _
    | ok v => exact .pure (isScalar_combineValues h)
  · exact .fail _

end Stencil.Expansion
