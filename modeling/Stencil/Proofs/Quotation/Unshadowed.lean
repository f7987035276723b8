import Stencil.Proofs.Quotation.Correctness
import Stencil.Proofs.Quotation.Hygiene

/-!
# Expansions shadow nothing

A generator is started on a machine that holds the arguments of its template, and in a scope where
the names of the target's parameters are in use. What its body adds to the first accumulator becomes
one block, and no variable in it shadows another or takes the name of a parameter.

Results:

* `started_addContext` – the machine that a generator is started on is tame;
* `after_interpret` – the program comes to a bare value or to code with variables of its own;
* `unshadowed_expand` – so the flattened tree shadows nothing.
-/
namespace Stencil.Quotation

open Expansion

/-! ## Starting a generator -/

/-- A machine that holds loaded data only. -/
structure Unused (m : Machine) : Prop where
  frames : m.frames = #[]
  contexts : m.contexts = #[]
  lists : ∀ (p : Nat) (items : Array Value), m.lists[p]? = some items → ∀ v ∈ items, Bare m v

namespace Unused

variable {m n : Machine}

theorem look_eq (h : Unused m) (f : Nat) (name : String) : look m f name = none := by
  rw [look, h.frames]
  rfl

theorem not_held (h : Unused m) (p : Nat) : ¬Held m p := by
  rintro ⟨f, k, hv⟩
  rw [h.look_eq] at hv
  cases hv

end Unused

/-- A bare value stays bare while lists are added and none becomes a block. -/
theorem Bare.unheld {m n : Machine} {v : Value} (hv : Bare m v)
    (hs : m.lists.size ≤ n.lists.size) (hn : ∀ p, ¬Held n p) : Bare n v := by
  cases v with
  | list p => exact ⟨Nat.lt_of_lt_of_le hv.1 hs, hn p⟩
  | _ => exact hv

theorem Unused.push {m n : Machine} {vs : List Value} (hm : Unused m) (hv : ∀ v ∈ vs, Bare m v)
    (hn : n = { m with lists := m.lists.push vs.toArray }) :
    Unused n ∧ Bare n (.list m.lists.size) ∧ m.lists.size ≤ n.lists.size := by
  subst hn
  have free (p : Nat) : ¬Held { m with lists := m.lists.push vs.toArray } p :=
    fun ⟨f, i, h⟩ => hm.not_held p ⟨f, i, h⟩
  refine ⟨⟨hm.frames, hm.contexts, fun p items hp v hmem => ?_⟩, ⟨by simp, free _⟩, by simp⟩
  refine Bare.unheld (m := m) ?_ (by simp) free
  rw [Array.getElem?_push] at hp
  split at hp
  · cases hp
    exact hv v (by simpa using hmem)
  · exact hm.lists p items hp v hmem

mutual

theorem bare_load (m : Machine) (hm : Unused m) : (d : Datum) →
    Unused (m.load d).2 ∧ Bare (m.load d).2 (m.load d).1 ∧
      m.lists.size ≤ (m.load d).2.lists.size
  | .null => ⟨hm, trivial, Nat.le_refl _⟩
  | .bool _ => ⟨hm, trivial, Nat.le_refl _⟩
  | .int _ => ⟨hm, trivial, Nat.le_refl _⟩
  | .float _ => ⟨hm, trivial, Nat.le_refl _⟩
  | .string _ => ⟨hm, trivial, Nat.le_refl _⟩
  | .list items => by
    obtain ⟨hn, hv, hs⟩ := bare_loadAll m hm items
    obtain ⟨hk, hp, hs'⟩ := hn.push hv rfl
    rw [Machine.load]
    exact ⟨hk, hp, Nat.le_trans hs hs'⟩

theorem bare_loadAll (m : Machine) (hm : Unused m) : (ds : List Datum) →
    Unused (m.loadAll ds).2 ∧ (∀ v ∈ (m.loadAll ds).1, Bare (m.loadAll ds).2 v) ∧
      m.lists.size ≤ (m.loadAll ds).2.lists.size
  | [] => by
    rw [Machine.loadAll]
    exact ⟨hm, by simp, Nat.le_refl _⟩
  | d :: rest => by
    obtain ⟨hn, hv, hs⟩ := bare_load m hm d
    obtain ⟨hk, hvs, hs'⟩ := bare_loadAll (m.load d).2 hn rest
    rw [Machine.loadAll]
    exact ⟨hk, List.forall_mem_cons.2 ⟨hv.unheld hs' hk.not_held, hvs⟩, Nat.le_trans hs hs'⟩

end

/-- The names of the target's parameters are in use in the outermost scope. -/
theorem scopes_ofTarget (target : Target) : (Context.ofTarget target).scopes.Nested ∧
    0 < (Context.ofTarget target).scopes.scopes.length ∧
    ∀ p ∈ target.parameters, p.name ∈ (Context.ofTarget target).scopes.namesOf 0 := by
  suffices reserved : ∀ (ps : List TargetParameter) (s : Scopes), s.Nested →
      0 < s.scopes.length → (ps.foldl (fun s p => s.reserve 0 p.name) s).Nested ∧
        s.Grows (ps.foldl (fun s p => s.reserve 0 p.name) s) ∧
        ∀ p ∈ ps, p.name ∈ (ps.foldl (fun s p => s.reserve 0 p.name) s).namesOf 0 by
    obtain ⟨nested, grows, names⟩ :=
      reserved target.parameters .initial Scopes.nested_initial Nat.one_pos
    exact ⟨nested, Nat.lt_of_lt_of_le Nat.one_pos grows.length, names⟩
  intro ps
  induction ps with
  | nil => exact fun s hs _ => ⟨hs, .refl s, by simp⟩
  | cons p ps ih =>
    intro s hs h0
    have first : s.Grows (s.reserve 0 p.name) := Scopes.grows_reserve h0
    obtain ⟨nested, grows, names⟩ := ih (s.reserve 0 p.name) hs.reserve
      (Nat.lt_of_lt_of_le h0 first.length)
    refine ⟨nested, first.trans grows, List.forall_mem_cons.2 ⟨?_, names⟩⟩
    exact grows.names 0 (Scopes.mem_namesOf_reserve h0)

variable {own : Nat} {r : Reach} {m n : Machine}

/-- The arguments that the context `own` holds for parameters are bare. -/
def BareArguments (own : Nat) (m : Machine) : Prop :=
  ∀ c, m.contexts[own]? = some c → ∀ e ∈ c.arguments, Bare m e.2

theorem BareArguments.onward (h : BareArguments own m) (hm : Tame own m)
    (ho : Onward own r m n) : BareArguments own n := by
  intro c' hc' e he
  obtain ⟨c, hc, -⟩ := hm.context
  obtain ⟨c'', hc'', -, ha, -, -⟩ := ho.context c hc
  obtain rfl : c'' = c' := Option.some.inj (hc''.symm.trans hc')
  exact (h c hc e (ha ▸ he)).onward ho

/-- What a generator is started on. -/
structure Started (own : Nat) (target : Target) (m : Machine) : Prop where
  tame : Tame own m
  arguments : BareArguments own m
  /-- the names of the target's parameters are in use -/
  taken : ∀ p ∈ target.parameters, AroundIn own m p.name
  target : ∃ c, m.contexts[own]? = some c ∧ c.target = target
  /-- no block is under construction -/
  free : ∀ p, ¬Held m p

theorem started_addContext (target : Target) (arguments : List (String × Datum))
    (h : Machine.initial.addContext target arguments = (own, m)) :
    Started own target (m.enter own).2 := by
  obtain ⟨loaded, values, -⟩ := bare_loadAll .initial ⟨rfl, rfl, by simp [Machine.initial]⟩
    (arguments.map Prod.snd)
  obtain ⟨nested, inside, names⟩ := scopes_ofTarget target
  unfold Machine.addContext at h
  generalize Machine.initial.loadAll (arguments.map Prod.snd) = start at loaded values h
  obtain ⟨vs, k⟩ := start
  dsimp only at loaded values h
  generalize hnamed : ((arguments.map Prod.fst).zip vs).reverse = named at h
  cases h
  have free (p : Nat) : ¬Held { k with
      contexts := k.contexts.push { Context.ofTarget target with arguments := named }
      active := k.contexts.size :: k.active } p := by
    rintro ⟨f, i, hv⟩
    exact loaded.not_held p ⟨f, i, hv⟩
  have found : (k.contexts.push { Context.ofTarget target with arguments := named })[
      k.contexts.size]? = some { Context.ofTarget target with arguments := named } :=
    Array.getElem?_push_size
  refine ⟨⟨⟨_, found, nested, inside⟩, rfl, ?_, ?_⟩, ?_, fun p hp => ?_, ⟨_, found, rfl⟩, free⟩
  · intro p items hp _ v hv
    exact (loaded.lists p items hp v hv).unheld (Nat.le_refl _) free
  · intro f name v hv
    exact absurd (hv.symm.trans (loaded.look_eq f name)) (by simp)
  · intro c hc e he
    obtain rfl := Option.some.inj (found.symm.trans hc)
    have := List.mem_reverse.1 (hnamed ▸ he)
    exact (values e.2 (List.of_mem_zip this).2).unheld (Nat.le_refl _) free
  · exact ⟨_, found, .of_mem (names p hp)⟩

/-! ## Running a generator -/

theorem after_bindParameter {env : Scoping} {p : Node} (hm : Tame own m)
    (ha : BareArguments own m) (hp : isOpenName p.nameOrEmpty) :
    After own r m (bindParameter own env p) fun _ _ => True := by
  unfold bindParameter
  refine .bind (after_contextAt hm own) ?_
  rintro c _ - - ⟨rfl, hc⟩
  split
  · next v hv => exact after_define hm hp (ha c hc _ (mem_of_lookup hv)) env
  · exact .fail _

/-- The block of what was added to an accumulator. -/
theorem builds_result {a p : Nat} {env : Scoping} {cs : List (Child Node)}
    (hf : Finds n a p env) (hl : n.lists[p]? = some (cs.map valueOf).toArray)
    (hs : Settled own m n ((cs.filterMap Child.node?).flatMap Node.contents)) :
    Builds own n env (construct "Block" [.identifier (accumulatorName a)])
      fun _ v k => ∃ t, v = .node t ∧ Piece own m k t := by
  have gathered : Builds own n env (.identifier (accumulatorName a))
      fun _ v k => Encloses own m v k := by
    intro b k hk ho
    refine (after_accumulator hk (hf.onward ho) b).mono ?_
    rintro _ _ - ⟨rfl, rfl⟩
    exact .of_list (by rw [ho.list_eq hf.held, hl]) (hs.widen (.refl own .none m) ho)
  refine builds_methodCall (by decide) ofName?_syntax (.one gathered) ?_
  rintro _ _ k - hk - ⟨v, rfl, hv⟩
  exact after_blockOf hk hv

variable {store : FactStore} {t : Node}

/-- A generator comes to a bare value, or to the piece that its first accumulator has gathered. -/
theorem after_interpret (store : FactStore) (ht : Quotable t) (hk : t.kind = .template)
    (hm : Tame own m) (ha : BareArguments own m) (b : Nat) :
    After own .none m (interpret own b (quoteTemplate store t).1.program)
      fun v n => Bare n v ∨ ∃ c, v = .node c ∧ Piece own m n c := by
  obtain ⟨ps, body, hnodes, hps, hbody⟩ := ht.here.nodes_template hk
  have found : t.nodeOfKind? .block = some body := by
    have hfind : ps.find? (·.kind == .block) = none :=
      List.find?_eq_none.2 fun p hm => by simp [hps p hm]
    simp [Node.nodeOfKind?, hnodes, List.find?_append, hfind, hbody]
  obtain ⟨adds, -⟩ := (hygienic own store (provided? store t) body
    (ht.child (Node.mem_of_nodeOfKind? found))).block 0 .initial
    ⟨rfl, by simp [State.initial]⟩
  have hparameters : ∀ p ∈ t.nodes.filter (·.kind == .parameter), p.kind = .parameter := by simp
  obtain ⟨parameters, block⟩ := parts_template (t.nameOrEmpty ++ generatorEnding)
    (openAccumulator (accumulatorName 0) :: bodyStatements store t body ++
      [Node.returnStatement (some (construct "Block" [.identifier (accumulatorName 0)]))])
    hparameters
  rw [program_quoteTemplate store found, interpret, parameters, block]
  refine .bind (after_nestedIn hm []) ?_
  rintro _ _ hn ho ⟨rfl, rfl⟩
  refine .bind (.forM _ hn fun p hp n' hn' ho' => ?_) fun _ n' hn' ho' _ => ?_
  · have open_ := (ht.child (List.mem_filter.1 hp).1).modest.name
    exact after_bindParameter hn' (ha.onward hm (ho.trans ho')) open_
  · have gathered := after_accumulating hn' adds
      (Q := fun v k => ∃ c, v = .node c ∧ Piece own n' k c)
      (fun b env n p cs hn _ hf hl hs => builds_result hf hl hs b n hn (.refl _ _ _)) b
      [m.frames.size]
    refine gathered.mono fun v k _ hv => hv.imp_right ?_
    rintro ⟨c, rfl, hc⟩
    exact ⟨c, rfl, hc.widen (ho.trans ho') (.refl own .none k)⟩

/-! ## Expanding -/

/-- The flattened tree shadows nothing, and its variables were not in use before. -/
theorem after_flattened {v : Value}
    (hv : Bare n v ∨ ∃ c, v = .node c ∧ Piece own m n c) (hn : Tame own n) :
    After own .none n (flattened v)
      fun t _ => t.Unshadowed ∧ ∀ x ∈ t.variableNames, ¬AroundIn own m x := by
  cases v with
  | node c =>
    refine .pure hn ?_
    rcases hv with hc | ⟨_, ⟨⟩, hc⟩
    · have scopeless := hc.scopeless
      rw [scopeless.flatten, scopeless.variableNames]
      exact ⟨scopeless.unshadowed, nofun⟩
    · exact ⟨hc.part.unshadowed, fun x hx => (hc.part.fresh x hx).1⟩
  | _ => exact .fail _

/-- An expansion that succeeds runs the program in a context of its own. -/
theorem run_of_expand {target : Target} {arguments : List (String × Datum)} {program n : Node}
    (h : expand target arguments program = .ok n) :
    ∃ own m k, Machine.initial.addContext target arguments = (own, m) ∧
      (interpret own (budgetFor program) program >>= flattened) (m.enter own).2 = .ok n k := by
  obtain ⟨own, m, hstart⟩ : ∃ own m, Machine.initial.addContext target arguments = (own, m) :=
    ⟨_, _, rfl⟩
  have entered : expandIn own (budgetFor program) program m =
      ensuring (interpret own (budgetFor program) program >>= flattened)
        (·.leave m.active.length) (m.enter own).2 := rfl
  unfold expand at h
  rw [hstart] at h
  simp only [entered, ensuring] at h
  cases hrun : (interpret own (budgetFor program) program >>= flattened) (m.enter own).2 with
  | error e k => rw [hrun] at h; cases h
  | ok n' k =>
    rw [hrun] at h
    cases h
    exact ⟨own, m, k, hstart, hrun⟩

/-- Expanding a generator gives a tree in which nothing is shadowed, the target's parameters
included. -/
theorem unshadowed_expand (ht : Quotable t) (hk : t.kind = .template) {target : Target}
    {arguments : List (String × Datum)} {n : Node}
    (h : expand target arguments (quoteTemplate store t).1.program = .ok n) :
    n.Unshadowed ∧ ∀ x ∈ n.variableNames, x ∉ target.parameters.map TargetParameter.name := by
  obtain ⟨own, m, k, hstart, hrun⟩ := run_of_expand h
  have started := started_addContext target arguments hstart
  obtain ⟨-, -, unshadowed, fresh⟩ := After.bind (after_interpret store ht hk
    started.tame started.arguments _) (fun v n hn _ hv => after_flattened hv hn) n k hrun
  refine ⟨unshadowed, fun x hx htaken => fresh x hx ?_⟩
  obtain ⟨p, hp, rfl⟩ := List.mem_map.1 htaken
  exact started.taken p hp

end Stencil.Quotation
