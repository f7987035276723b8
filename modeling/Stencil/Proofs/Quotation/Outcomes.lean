import Stencil.Proofs.Quotation.Guarding
import Stencil.Proofs.Quotation.Running

/-!
# What guarded programs come to

A program whose body is guarded does not stop for what is guarded against, and no variable gets a
name that variables may not have, whatever it is expanded for and with whatever budget.

Results:

* `fares_interpret` – the run of a program with a guarded body;
* `Secure.endsWell` – every expansion of the program ends well;
* `Careful.secure` – the generators of careful templates are such programs.
-/
namespace Stencil.Quotation

open Expansion

/-- A program whose parameters have names that variables may have, and whose body is guarded. -/
structure Secure (c : Concern) (program : Node) : Prop where
  parameters : ∀ p ∈ program.nodes, p.kind = .parameter → c.allowed p.nameOrEmpty
  guarded : ∃ body, program.nodeOfKind? .block = some body ∧ Guarded c false [] body

/-- A run ends with a result or for a reason that is not guarded against, and its variables have
names that they may have. -/
def EndsWell {α : Type} (c : Concern) : EStateM.Result Stop Machine α → Prop
  | .ok _ m => WellNamed c m
  | .error e m => (∀ f, e = .fault f → c.Tolerates f) ∧ WellNamed c m

variable {c : Concern} {own : Nat} {m : Machine} {program : Node}

theorem fares_bindParameters {env : Scoping} (ps : List Node)
    (hp : ∀ p ∈ ps, c.allowed p.nameOrEmpty) (hm : Trim c own m) (ha : PlainArguments own m)
    (ho : Opened m env) : Fares c own m (ps.forM (bindParameter own env)) fun _ _ => True := by
  induction ps generalizing m with
  | nil => exact .pure hm trivial
  | cons p ps ih =>
    obtain ⟨here, there⟩ := List.forall_mem_cons.1 hp
    obtain ⟨context, hc⟩ : ∃ context, m.contexts[own]? = some context :=
      ⟨_, Array.getElem?_eq_getElem hm.plain.owned⟩
    change Fares c own m (bindParameter own env p >>= fun _ => ps.forM (bindParameter own env)) _
    have bound : Fares c own m (bindParameter own env p) fun _ n => PlainArguments own n := by
      unfold Fares
      rw [bindParameter_eq hc]
      cases hv : context.argument? p.nameOrEmpty with
      | none => exact ⟨fun f hf => Stop.fault.inj hf ▸ trivial, hm.named⟩
      | some v =>
        have plain : v.isPlain := ha context hc _ (mem_of_lookup hv)
        have defined := fares_define hm ho here plain
        obtain ⟨f, rest, rfl, -⟩ := ho
        exact ⟨ha, defined.2⟩
    exact bound.bind fun _ n ha hr hn => ih there hn ha (ho.retains hr)

/-- The run of a program with a guarded body. -/
theorem fares_interpret (h : Secure c program) (b : Nat) (hm : Trim c own m)
    (ha : PlainArguments own m) :
    Fares c own m (interpret own b program) fun v _ => v.isPlain := by
  have opened : Fares c own m (nestedIn []) fun env n => Opened n env ∧ PlainArguments own n := by
    obtain ⟨⟨open_, -⟩, grown⟩ := fares_nestedIn hm []
    exact ⟨⟨open_, ha⟩, grown⟩
  unfold interpret
  refine opened.bind fun env n hn hr ht => ?_
  obtain ⟨ho, ha⟩ := hn
  have parameters := fares_bindParameters (program.nodes.filter (·.kind == .parameter))
    (fun p hp => h.parameters p (List.mem_filter.1 hp).1 (by simpa using (List.mem_filter.1 hp).2))
    ht ha ho
  refine parameters.bind fun _ k _ hr' hk => ?_
  split
  · next body' hbody' =>
    obtain ⟨body, hbody, guarded⟩ := h.guarded
    cases hbody'.symm.trans hbody
    have run := (faring c own b env k guarded hk (ho.retains hr') (List.forall_mem_nil _)).2
    exact run.bind fun flow l hf _ hl => fares_value hl hf.1
  · exact .pure hk rfl

theorem endsWell_expandIn (h : Secure c program) (b : Nat) (hm : Trim c own m)
    (ha : PlainArguments own m) : EndsWell c (expandIn own b program m) := by
  have entered : Trim c own (m.enter own).2 :=
    ⟨⟨hm.plain.lists, hm.plain.frames, hm.plain.owned⟩, hm.named⟩
  have built : Fares c own (m.enter own).2 (interpret own b program >>= flattened)
      fun _ _ => True := by
    refine (fares_interpret h b entered ha).bind fun v n _ _ hn => ?_
    cases v with
    | node t => exact .pure hn trivial
    | _ => exact .fail hn trivial
  change EndsWell c (ensuring (interpret own b program >>= flattened) (·.leave m.active.length)
    (m.enter own).2)
  unfold Fares at built
  unfold ensuring
  cases hr : (interpret own b program >>= flattened) (m.enter own).2 with
  | ok t n =>
    rw [hr] at built
    exact built.2.2.named
  | error e n =>
    rw [hr] at built
    exact built

/-- Every expansion of a program with a guarded body ends well. -/
theorem Secure.endsWell (h : Secure c program) (target : Target)
    (arguments : List (String × Datum)) (b : Nat) :
    EndsWell c (expansion target arguments b program) := by
  obtain ⟨closureless, plain⟩ := closureless_addContext target arguments rfl
  have empty : (Machine.initial.addContext target arguments).2.frames = #[] := frames_loadAll _ _
  have named : WellNamed c (Machine.initial.addContext target arguments).2 := fun f vars hv => by
    rw [empty] at hv
    cases hv
  exact endsWell_expandIn h b ⟨closureless, named⟩ plain

/-- The generator of a careful template ends well, if its parameters have names that variables may
have. -/
theorem Careful.secure {store : FactStore} {t : Node} (hc : Careful c store t)
    (hk : t.kind = .template)
    (parameters : ∀ p ∈ t.nodes, p.kind = .parameter → c.allowed p.nameOrEmpty) :
    Secure c (quoteTemplate store t).1.program := by
  obtain ⟨body, hbody, guarded, program⟩ := guarded_quoteTemplate hc hk
  have hps : ∀ p ∈ t.nodes.filter (·.kind == .parameter), p.kind = .parameter := by simp
  rw [program]
  constructor
  · intro p hp hpk
    rw [nodes_template, List.mem_append] at hp
    rcases hp with hp | hp
    · exact parameters p (List.mem_filter.1 hp).1 hpk
    · rw [List.mem_singleton.1 hp, hbody] at hpk
      cases hpk
  · have hfind : (t.nodes.filter (·.kind == .parameter)).find? (·.kind == .block) = none :=
      List.find?_eq_none.2 fun p hm => by simp [hps p hm]
    exact ⟨body, by simp [Node.nodeOfKind?, nodes_template, List.find?_append, hfind, hbody],
      guarded⟩

end Stencil.Quotation
