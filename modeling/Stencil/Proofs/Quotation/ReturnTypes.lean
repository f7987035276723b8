import Stencil.Proofs.Facts.Recorded
import Stencil.Proofs.Facts.Stamping
import Stencil.Proofs.Quotation.Building
import Stencil.Session

/-!
# Types of returned values

A generator hands the type of a returned value to the context as a text. All types that are learned
are readable, so the context reads the type that the resolver found, and it takes the value for
dynamic exactly if that type is.

Results:

* `FactStore.Learned.readable` – the types in a store that was filled by resolving trees;
* `type_texts_round_trip` – texts of types, and what the context makes of the text it is given.
-/
namespace Stencil

open Expansion Quotation

/-! ## Learned types -/

/-- Stores as they come about by resolving trees, in whatever environments. -/
inductive FactStore.Learned : FactStore → Prop where
  | empty : Learned .empty
  | learn {s s' : FactStore} {e : Environment} {n n' : Node} (h : Learned s)
      (hl : s.learn e n = .ok (n', s')) : Learned s'

namespace FactStore.Learned

variable {s : FactStore}

theorem readable_facts (h : s.Learned) :
    ∀ f ∈ s.facts.toList, ∀ t, f.type = some t → t.Readable := by
  induction h with
  | empty => exact fun f hf => absurd hf List.not_mem_nil
  | @learn s s' e n n' _ hl ih =>
    obtain ⟨findings, hf, annotated⟩ := exists_of_learn hl
    obtain rfl : (s.annotate (findings.of ·.id) n).2 = s' := congrArg Prod.snd annotated
    intro f hmem t ht
    rw [(records_annotate (findings.of ·.id) s n).facts] at hmem
    rcases List.mem_append.1 hmem with old | new
    · exact ih f old t ht
    · obtain ⟨p, -, rfl⟩ := List.mem_map.1 new
      exact (sound_of_findings hf _).type t ht

/-- Types that were learned are readable. -/
theorem readable (h : s.Learned) {n : Node} {t : TypeExpr} (ht : s.type? n = some t) :
    t.Readable := by
  rw [type?, lookup] at ht
  cases hf : n.factKey?.bind (s.facts[·]?) with
  | none =>
    rw [hf] at ht
    cases ht
  | some f =>
    rw [hf] at ht
    obtain ⟨key, -, hkey⟩ := Option.bind_eq_some_iff.1 hf
    exact h.readable_facts f (List.mem_of_getElem? (Array.getElem?_toList.trans hkey)) t ht

end FactStore.Learned

/-! ## Lowering a returned value -/

namespace Quotation

/-- `Context.ReturnStatement(quoted, "type")` -/
def returnCall (quoted : Node) (type : String) : Node :=
  .methodCall "Context" "ReturnStatement" [quoted, .stringLiteral type]

/-- `return value;` as the target of the innermost context demands it. -/
def lowerValue (v : Value) (dynamic : Bool) : Run Value := do
  let context ← currentContext
  let value ← asNode v
  newNode (← onContext context (Context.returnStatement (some value) dynamic))

/-- Wherever `quoted` gives a value and no variable hides the context, the call lowers that value,
and takes it for dynamic or not as `dynamic` says. -/
def LowersAs (type : String) (dynamic : Bool) : Prop :=
  ∀ own b env quoted m v m', eval own (b + 1) env quoted m = .ok v m' →
    m'.valueOf? env "Context" = none → own < m'.contexts.size →
    eval own (b + 2) env (returnCall quoted type) m = lowerValue v dynamic m'

theorem callMethod_returnStatement (v : Value) (type : String) :
    callMethod (.builtin .context) "ReturnStatement" [v, .string type] =
      lowerValue v (isDynamicText type) := by
  change (currentContext >>= fun context => some <$> asNode v >>= fun value =>
    onContext context (Context.returnStatement value (isDynamicText type)) >>= newNode) = _
  simp only [lowerValue, bind_map_left]

theorem lowersAs_isDynamicText (type : String) : LowersAs type (isDynamicText type) := by
  intro own b env quoted m v m' hv hidden hown
  have literal : eval own (b + 1) env (.stringLiteral type) m' = .ok (.string type) m' := by
    rw [eval]
    rfl
  have context := eval_unbound ofName?_context hidden hown b
  simp only [returnCall, eval_methodCall, List.mapM_cons, List.mapM_nil, bind_assoc, pure_bind]
  simp only [run_bind, hv, literal, context, callMethod_returnStatement]

theorem isDynamicText_text {t : TypeExpr} (h : t.Readable) :
    isDynamicText t.text = decide (t = .dynamic) := by
  rw [isDynamicText, TypeExpr.parse_text t h]
  cases t <;> rfl

end Quotation

/-- **Texts of types round-trip.** What is read from a text is read again from its own text, and so
is every type whose names are read as themselves. So the context finds the type in the text that the
generator gives it to be dynamic exactly if the type that was learned is. -/
theorem type_texts_round_trip :
    (∀ text t, TypeExpr.parse text = .ok t → TypeExpr.parse t.text = .ok t) ∧
    (∀ t : TypeExpr, t.Readable → TypeExpr.parse t.text = .ok t) ∧
    ∀ store : FactStore, store.Learned → ∀ provided n value, n.kind = .returnStatement →
      n.node? 0 = some value → providedForm? provided value = none →
      let static := (store.type? value).getD .unknown
      quoteStatement store provided n = (returnCall · static.text) <$> quote store provided value ∧
        LowersAs static.text (static = .dynamic) := by
  refine ⟨fun text t h => TypeExpr.parse_text t (TypeExpr.readable_of_parse h),
    TypeExpr.parse_text, ?_⟩
  intro store learned provided n value hk hv hp static
  have readable : static.Readable :=
    Resolution.readable_getD (fun t ht => learned.readable ht) trivial
  refine ⟨?_, ?_⟩
  · rw [quoteStatement, if_neg (by simp [hk])]
    split
    · next h => rw [hv] at h; cases h
    · next h =>
      obtain rfl := Option.some.inj (hv.symm.trans h)
      rw [hp]
      rfl
  · rw [← isDynamicText_text readable]
    exact lowersAs_isDynamicText static.text

/-- The code `return x;`, and an environment in which `x` is dynamic. -/
def returningDynamic : Environment × Node :=
  (.ofEntries [("x", ⟨.property, "dynamic", .either, none⟩)] [],
    .returnStatement (some (.identifier "x")))

theorem type_texts_round_trip_dynamic :
    (TypeExpr.parse " List< A b >" = .ok (.list (.named "A b")) ∧
      TypeExpr.parse "List<A b>" = .ok (.list (.named "A b"))) ∧
    ((TypeExpr.awaitable (.named ">")).Readable ∧
      TypeExpr.parse "Task<>>" = .ok (.awaitable (.named ">"))) ∧
    ∃ n s value, FactStore.empty.learn returningDynamic.1 returningDynamic.2 = .ok (n, s) ∧
      n.kind = .returnStatement ∧ n.node? 0 = some value ∧ s.type? value = some .dynamic ∧
      quoteStatement s none n = (returnCall · "dynamic") <$> quote s none value ∧
      LowersAs "dynamic" true := by
  have blanks : TypeExpr.parse " List< A b >" = .ok (.list (.named "A b")) := by decide +kernel
  have odd : (TypeExpr.awaitable (.named ">")).Readable := by
    change TypeExpr.parse ">" = .ok (.named ">")
    decide +kernel
  have found : ((FactStore.empty.learn returningDynamic.1 returningDynamic.2).toOption.bind
      fun r => (r.1.node? 0).bind fun value => (r.2.type? value).map (r.1.kind, ·)) =
      some (.returnStatement, .dynamic) := by
    decide +kernel
  obtain ⟨⟨n, s⟩, learned, found⟩ := Option.bind_eq_some_iff.1 found
  obtain ⟨value, hvalue, found⟩ := Option.bind_eq_some_iff.1 found
  obtain ⟨type, htype, same⟩ := Option.map_eq_some_iff.1 found
  obtain ⟨kind, rfl⟩ := Prod.ext_iff.1 same
  have hl := eq_ok_of_toOption learned
  have lowered := type_texts_round_trip.2.2 s (.learn .empty hl) none n value kind hvalue rfl
  rw [htype] at lowered
  exact ⟨⟨blanks, type_texts_round_trip.1 _ _ blanks⟩, ⟨odd, type_texts_round_trip.2.1 _ odd⟩,
    n, s, value, hl, kind, hvalue, htype, lowered⟩

end Stencil
