import Stencil.Proofs.Quotation.Building
import Stencil.Proofs.Quotation.Simulation

/-!
# What generators gather

Statements of a generator add code to the accumulator of the block that is being built. Whatever
they run, the list grows by code that may stand in one block; a closure gathers the statements of a
block in a scope of its own and gives their list.

Results:

* `Adds.append`, `Adds.flatten` – statements that add code, one after another;
* `adds_kept`, `adds_built`, `adds_declaration`, `adds_loop` – each statement that a generator makes
  adds such code;
* `IsBranch.after`, `adds_if`, `adds_forEach` – so does the generator's own control flow;
* `after_accumulating`, `builds_closure` – what is gathered by a whole body.
-/
namespace Stencil.Quotation

open Expansion

variable {own : Nat} {r : Reach} {m n : Machine} {env : Scoping} {a p : Nat}

/-! ## Accumulators -/

/-- The accumulator numbered `a` holds the list at `p`, and no frame before its own has a variable
of that name. -/
inductive Finds (m : Machine) (a p : Nat) : Scoping → Prop
  | here {f : Nat} {env : Scoping} (h : look m f (accumulatorName a) = some (.list p)) :
    Finds m a p (f :: env)
  | behind {f : Nat} {env : Scoping} (hf : f < m.frames.size)
    (h : look m f (accumulatorName a) = none) (hr : Finds m a p env) : Finds m a p (f :: env)

theorem Finds.onward (h : Finds m a p env) (ho : Onward own r m n) : Finds n a p env := by
  induction h with
  | here h => exact .here (ho.look_accumulator h)
  | behind hf h _ ih =>
    refine .behind (Nat.lt_of_lt_of_le hf ho.frames) ?_ ih
    rw [ho.kept _ hf _ (isReserved_accumulatorName a) fun _ => ⟨a, rfl⟩, h]

theorem Finds.valueOf? (h : Finds m a p env) :
    m.valueOf? env (accumulatorName a) = some (.list p) := by
  rw [valueOf?_eq]
  induction h with
  | here h => rw [List.findSome?_cons, h]
  | behind _ h _ ih => rw [List.findSome?_cons, h, ih]

theorem Finds.held (h : Finds m a p env) : Held m p := by
  induction h with
  | here h => exact ⟨_, a, h⟩
  | behind _ _ _ ih => exact ih

theorem after_accumulator (hm : Tame own m) (h : Finds m a p env) (b : Nat) :
    After own r m (eval own b env (.identifier (accumulatorName a)))
      fun v n => v = .list p ∧ m = n := by
  cases b with
  | zero =>
    rw [eval]
    exact .throw _
  | succ b =>
    intro v n hn
    rw [eval] at hn
    change valueNamed own env (accumulatorName a) m = .ok v n at hn
    rw [valueNamed_some h.valueOf?] at hn
    cases hn
    exact ⟨hm, .refl _ _ _, rfl, rfl⟩

/-- A frame that is opened inside finds the same accumulator. -/
theorem Finds.openFrame (h : Finds m a p env) (ho : Onward own .none m m.openFrame) :
    Finds m.openFrame a p (m.frames.size :: env) := by
  refine .behind (by simp [Machine.openFrame]) ?_ (h.onward ho)
  rw [look_openFrame, look, Array.getElem?_eq_none (Nat.le_refl _)]
  rfl

/-! ## Growing lists -/

/-- The statements in the list at `p` may stand in one block with what was added to it. -/
def Grown (own p : Nat) (m n : Machine) : Prop :=
  ∃ cs : List (Child Node), n.lists[p]? = (m.lists[p]?).map (·.appendList (cs.map valueOf)) ∧
    Settled own m n ((cs.filterMap Child.node?).flatMap Node.contents)

theorem appendList_append (items : Array Value) (vs ws : List Value) :
    (items.appendList vs).appendList ws = items.appendList (vs ++ ws) := by
  apply Array.ext'
  simp [Array.appendList_eq_append]

theorem Grown.of_eq (h : n.lists[p]? = m.lists[p]?) : Grown own p m n := by
  refine ⟨[], ?_, .nil⟩
  rw [h, List.map_nil]
  cases m.lists[p]? <;> simp

theorem Grown.trans {k : Machine} {r' : Reach} (hm : Onward own r m n) (hn : Onward own r' n k)
    (h : Grown own p m n) (h' : Grown own p n k) : Grown own p m k := by
  obtain ⟨cs, hl, hs⟩ := h
  obtain ⟨ds, hl', hs'⟩ := h'
  refine ⟨cs ++ ds, ?_, ?_⟩
  · rw [hl', hl, Option.map_map, List.map_append]
    simp only [Function.comp_def, appendList_append]
  · rw [List.filterMap_append, List.flatMap_append]
    exact hs.append hs' hm hn

theorem accrues_grown : Accrues own r (Grown own p) :=
  ⟨fun _ _ => .of_eq rfl, fun _ _ _ => .trans⟩

/-- What leaves blocks under construction alone adds nothing. -/
theorem Grown.of_held (hp : Held m p) (ho : Onward own .none m n) : Grown own p m n :=
  .of_eq (ho.list_eq hp)

/-- Statements that, run in a frame `f` of their own, add code to the accumulator numbered `a`. -/
def Adds (own a : Nat) (qs : List Node) : Prop :=
  ∀ b f env m p, Tame own m → f < m.frames.size → Finds m a p (f :: env) →
    After own (.block f p) m (inOrder (exec own b (f :: env)) qs)
      fun flow n => Grown own p m n ∧ Leaves n flow

theorem Adds.nil : Adds own a [] := fun _ _ _ _ _ hm _ _ => .pure hm ⟨.of_eq rfl, .ongoing⟩

theorem Adds.append {qs qs' : List Node} (h : Adds own a qs) (h' : Adds own a qs') :
    Adds own a (qs ++ qs') := by
  intro b f env m p hm hf hp
  rw [inOrder_append]
  refine .bind (h b f env m p hm hf hp) ?_
  rintro flow n hn ho ⟨hg, hv⟩
  have later := h' b f env n p hn (Nat.lt_of_lt_of_le hf ho.frames) (hp.onward ho)
  cases flow with
  | ongoing =>
    intro flow k hk
    obtain ⟨tame, onward, hg', hv'⟩ := later flow k hk
    exact ⟨tame, onward, hg.trans ho onward hg', hv'⟩
  | _ => exact .pure hn ⟨hg, hv⟩

theorem Adds.flatten {qss : List (List Node)} (h : ∀ qs ∈ qss, Adds own a qs) :
    Adds own a qss.flatten := by
  induction qss with
  | nil => exact .nil
  | cons qs qss ih =>
    exact .append (h qs List.mem_cons_self) (ih fun q hq => h q (List.mem_cons_of_mem _ hq))

theorem Adds.of_one {q : Node} (h : ∀ b f env m p, Tame own m → f < m.frames.size →
    Finds m a p (f :: env) → After own (.block f p) m (exec own b (f :: env) q)
      fun flow n => Grown own p m n ∧ Leaves n flow) : Adds own a [q] := by
  intro b f env m p hm hf hp
  rw [inOrder]
  refine .bind (h b f env m p hm hf hp) fun flow n hn _ hg => ?_
  cases flow <;> exact .pure hn hg

/-- A statement of the template adds nothing. -/
theorem adds_kept {q : Node} (hq : Modest q) : Adds own a [q] := by
  refine .of_one fun b f env m p hm _ hp => ?_
  exact ((after_exec b hq (f :: env) hm).mono fun flow n ho hv =>
    ⟨.of_held hp.held ho, hv⟩).weaken f p

/-! ## Adding code -/

/-- `__sN.Add(quoted);` -/
def addition (a : Nat) (quoted : Node) : Node :=
  .expressionStatement (.methodCall (accumulatorName a) "Add" [quoted])

/-- The value may be added to the block that is being built. -/
def IsStatement (own : Nat) : Machine → Value → Machine → Prop :=
  IsChild fun m t n => Settled own m n t.contents

/-- Adding what was built since `m₀`, when nothing had been added meanwhile. -/
theorem after_addition {m₀ : Machine} {q : Node} (hm : Tame own m) (hp : Finds m a p env)
    (h : Builds own m env q fun _ v n => IsStatement own m₀ v n)
    (hl : m.lists[p]? = m₀.lists[p]?) (b f : Nat) :
    After own (.block f p) m (exec own b env (addition a q))
      fun flow n => Grown own p m₀ n ∧ Leaves n flow := by
  rcases b with _ | _ | b
  · rw [exec]
    exact .throw _
  · rw [addition, exec_expressionStatement, eval]
    exact .throw _
  · rw [addition, exec_expressionStatement, eval_methodCall]
    simp only [List.mapM_cons, List.mapM_nil, bind_assoc, pure_bind]
    have quoted := (h b m hm (.refl _ _ _)).mono fun v n ho hv =>
      (⟨ho.list_eq hp.held, hv⟩ : n.lists[p]? = m.lists[p]? ∧ IsStatement own m₀ v n)
    refine .bind (quoted.weaken f p) ?_
    rintro _ n hn ho ⟨hkept, c, rfl, hc⟩
    refine .bind (after_accumulator hn (hp.onward ho) b) ?_
    rintro _ _ - - ⟨rfl, rfl⟩
    change After own (.block f p) n
      (appendTo p [valueOf c] >>= fun _ => pure Flow.ongoing) _
    refine .bind (after_accumulate hn (hp.onward ho).held _) fun _ k hk ho' hadded =>
      .pure hk ⟨⟨[c], by rw [hadded, hkept, hl]; rfl, ?_⟩, .ongoing⟩
    cases c with
    | token t => exact .nil
    | node t =>
      simp only [List.filterMap_cons, Child.node?_node, List.filterMap_nil, List.flatMap_cons,
        List.flatMap_nil, List.append_nil]
      exact (hc t rfl).widen (.refl own .none m₀) ho'

/-- Code that is built in one go. -/
theorem adds_built {q : Node} (h : ∀ start env, Builds own start env q (IsPiece own)) :
    Adds own a [addition a q] := by
  refine .of_one fun b f env m p hm _ hp => after_addition hm hp (fun b k hk ho => ?_) rfl b f
  exact (h m _ b k hk ho).mono fun v n _ hv =>
    hv.mono fun t ht => ht.settled.widen ho (.refl own .none n)

/-! ## Declarations -/

/-- `var __x_i = Context.FreshIdentifier("x");` -/
def naming (e : String × Nat) : Node :=
  .localDeclaration (.ofName (holderName e.1 e.2))
    (some (.methodCall "Context" "FreshIdentifier" [.stringLiteral e.1]))

/-- A holder in the frame in reach may take a token. -/
theorem after_defineHolder {f : Nat} (hm : Tame own m) (hf : f < m.frames.size) (hint : String)
    (i : Nat) {t : Token} (ht : t.kind = .identifier) :
    After own (.block f p) m (define (f :: env) (holderName hint i) (.token t))
      fun _ n => n = m.update f (holderName hint i) (.token t) := by
  intro _ n hn
  cases hn
  obtain ⟨tame, onward⟩ := reframed (r := .block f p)
    (n := m.update f (holderName hint i) (.token t)) hm rfl rfl rfl (by simp [Machine.update])
    fun g name => by
      rw [look_update m hf]
      split
      · next h =>
        obtain ⟨rfl, rfl⟩ := h
        exact .inr ⟨holderName_ne_accumulatorName hint i, fun _ => rfl, _, rfl, .holder ht⟩
      · exact .inl rfl
  exact ⟨tame, onward, rfl⟩

/-- The holders in the frame `f` have names that were made up between `m` and `n`. -/
structure Named (own f p : Nat) (es : List (String × Nat)) (m n : Machine) (xs : List String) :
    Prop where
  values : List.Forall₂
    (fun e x => look n f (holderName e.1 e.2) = some (.token (.ofName x))) es xs
  nodup : xs.Nodup
  new : ∀ x ∈ xs, New own m n x
  /-- the other holders keep theirs -/
  others : ∀ hint i, (∀ e ∈ es, i ≠ e.2) →
    look n f (holderName hint i) = look m f (holderName hint i)
  list : n.lists[p]? = m.lists[p]?

theorem after_naming {f : Nat} (hm : Tame own m) (hf : f < m.frames.size) (hp : Held m p)
    (e : String × Nat) (b : Nat) :
    After own (.block f p) m (exec own b (f :: env) (naming e)) fun flow n =>
      flow = .ongoing ∧ ∃ x, Named own f p [e] m n [x] := by
  rcases b with _ | b
  · rw [exec]
    exact .throw _
  · rw [naming, exec_localDeclaration]
    have fresh : Builds own m (f :: env)
        (.methodCall "Context" "FreshIdentifier" [.stringLiteral e.1]) _ :=
      builds_freshIdentifier e.1
    have made := (fresh b m hm (.refl _ _ _)).mono fun v n ho hv =>
      (⟨ho, hv⟩ : Onward own .none m n ∧ _)
    refine .bind (made.weaken f p) ?_
    rintro _ n hn - ⟨ho, x, rfl, hx⟩
    refine .bind (after_defineHolder hn (Nat.lt_of_lt_of_le hf ho.frames) e.1 e.2 rfl) ?_
    rintro _ _ hk ho' rfl
    refine .pure hk ⟨rfl, x, ?_⟩
    have looks := look_update n (Nat.lt_of_lt_of_le hf ho.frames) (holderName e.1 e.2)
      (.token (.ofName x)) f
    refine ⟨.cons (by rw [looks, if_pos ⟨rfl, rfl⟩]) .nil, by simp, ?_, ?_, ho.list_eq hp⟩
    · simpa using hx.widen (.refl own .none m) ho'
    · intro hint i hi
      have other : holderName hint i ≠ holderName e.1 e.2 := fun h =>
        hi e List.mem_cons_self (holderName_injective h)
      rw [looks, if_neg fun h => other h.2]
      exact ho.look_eq hf (isReserved_holderName hint i)

/-- Several names are made up one after another. -/
theorem after_namings {f : Nat} (es : List (String × Nat)) (hm : Tame own m)
    (hf : f < m.frames.size) (hp : Held m p) (hes : (es.map Prod.snd).Nodup) (b : Nat) :
    After own (.block f p) m (inOrder (exec own b (f :: env)) (es.map naming)) fun flow n =>
      flow = .ongoing ∧ ∃ xs, Named own f p es m n xs := by
  induction es generalizing m with
  | nil =>
    refine .pure hm ⟨rfl, [], .nil, .nil, by simp, fun _ _ _ => rfl, rfl⟩
  | cons e es ih =>
    rw [List.map_cons, List.nodup_cons] at hes
    rw [List.map_cons, inOrder]
    refine .bind (after_naming hm hf hp e b) ?_
    rintro _ n hn ho ⟨rfl, x, hx⟩
    intro flow k hk
    obtain ⟨tame, ho', hflow, xs, hxs⟩ := ih hn (Nat.lt_of_lt_of_le hf ho.frames) (hp.onward ho)
      hes.2 flow k hk
    refine ⟨tame, ho', hflow, x :: xs, ?_, ?_, ?_, ?_, hxs.list.trans hx.list⟩
    · refine .cons ?_ hxs.values
      have apart : ∀ e' ∈ es, e.2 ≠ e'.2 := fun e' he h => hes.1 (h ▸ List.mem_map_of_mem he)
      rw [hxs.others e.1 e.2 apart]
      exact (List.forall₂_cons.1 hx.values).1
    · refine List.nodup_cons.2 ⟨fun hmem => ?_, hxs.nodup⟩
      exact (hxs.new x hmem).within (hx.new x List.mem_cons_self).here.within
    · have first := (hx.new x List.mem_cons_self).widen (.refl own .none m) ho'
      refine List.forall_mem_cons.2 ⟨first, fun y hy => ?_⟩
      exact (hxs.new y hy).widen ho (.refl own .none k)
    · intro hint i hi
      rw [hxs.others hint i fun e' he => hi e' (List.mem_cons_of_mem _ he)]
      exact hx.others hint i (by simpa using hi e List.mem_cons_self)

/-- The name that was made up for a declaration is read from its holder. -/
theorem builds_named {f : Nat} {hint x : String} {i : Nat}
    (h : look m f (holderName hint i) = some (.token (.ofName x))) :
    Builds own m (f :: env) (.identifier (holderName hint i))
      fun _ v _ => v = .token (.ofName x) := by
  intro b n hn ho
  have hl : look n f (holderName hint i) = some (.token (.ofName x)) := by
    rw [ho.look_eq (lt_of_look h) (isReserved_holderName hint i), h]
  have found : n.valueOf? (f :: env) (holderName hint i) = some (.token (.ofName x)) := by
    rw [valueOf?_eq, List.findSome?_cons, hl]
  cases b with
  | zero =>
    rw [eval]
    exact .throw _
  | succ b =>
    intro v k hk
    rw [eval] at hk
    change valueNamed own (f :: env) (holderName hint i) n = .ok v k at hk
    rw [valueNamed_some found] at hk
    cases hk
    exact ⟨hn, .refl _ _ _, rfl⟩

/-- A constructor call whose first argument is the holder of a name. -/
theorem builds_constructNamed {f : Nat} {hint x : String} {i : Nat} {kind : NodeKind}
    {qs : List Node} {P : Machine → Value → Machine → Prop}
    (h : look m f (holderName hint i) = some (.token (.ofName x)))
    (hqs : ∀ q ∈ qs, Builds own m (f :: env) q (IsPart own))
    (hP : ∀ k n t, Onward own .none m k → Onward own .none k n → t.kind = kind →
      t.name? = some x → (∀ c ∈ t.nodes, Part own k n c.flatten) → P k (.node t) n) :
    Builds own m (f :: env) (construct kind.name (.identifier (holderName hint i) :: qs)) P := by
  refine builds_methodCall (by decide) ofName?_syntax (.cons (builds_named h) (.parts hqs)) ?_
  rintro k _ n hstart hn hkn ⟨l, _, _, rfl, ho, -, rfl, cs, rfl, hcs⟩
  have children : Value.token (.ofName x) :: cs.map valueOf =
      (Child.token (.ofName x) :: cs).map valueOf := rfl
  rw [callMethod_construct, children, constructNode_map_valueOf, pure_bind]
  refine .bind (after_newIdentity hn) fun id n' hn' ho' _ => .pure hn' ?_
  refine hP k n' _ hstart (hkn.trans ho') rfl rfl fun c hc => (hcs c ?_).widen ho ho'
  simpa using Node.mem_nodes.1 hc

/-- A declarator and the name that it declares. -/
def IsDeclarator (own : Nat) (x : String) (m : Machine) (t : Node) (n : Machine) : Prop :=
  t.kind = .declarator ∧ t.name? = some x ∧ Part own m n t.flatten

/-- The call that builds the declarator of a holder's name, and the code of its value. -/
def declaring (e : (String × Nat) × List Node) : Node :=
  construct NodeKind.declarator.name (.identifier (holderName e.1.1 e.1.2) :: e.2)

theorem builds_declarators {f : Nat} {es : List ((String × Nat) × List Node)} {xs : List String}
    (hx : List.Forall₂ (fun e x => look m f (holderName e.1 e.2) = some (.token (.ofName x)))
      (es.map Prod.fst) xs)
    (hv : ∀ e ∈ es, ∀ q ∈ e.2, Builds own m (f :: env) q (IsPart own)) :
    BuildsAll own m (f :: env) (es.map declaring) fun k vs n =>
      ∃ ts : List Node, vs = ts.map .node ∧
        List.Forall₂ (fun t x => IsDeclarator own x k t n) ts xs := by
  induction es generalizing xs with
  | nil =>
    cases hx
    exact BuildsAll.nil.mono fun _ _ _ h => ⟨[], h.1, .nil⟩
  | cons e es ih =>
    rw [List.map_cons] at hx
    obtain _ | ⟨hx, hxs⟩ := hx
    have first : Builds own m (f :: env) (declaring e) fun k v n =>
        ∃ t, v = .node t ∧ IsDeclarator own _ k t n :=
      builds_constructNamed hx (hv e List.mem_cons_self) fun _ _ t _ _ hk hx hc =>
        ⟨t, rfl, hk, hx, .of_nodes (by rw [hk]; rfl) hc⟩
    refine (BuildsAll.cons first
      (ih hxs fun e' he => hv e' (List.mem_cons_of_mem _ he))).mono ?_
    rintro k _ n ⟨l, _, _, rfl, ho, ho', ⟨t, rfl, hk, hname, hp⟩, ts, rfl, hts⟩
    refine ⟨t :: ts, rfl, .cons ⟨hk, hname, hp.widen (.refl own .none k) ho'⟩ (hts.imp ?_)⟩
    rintro t' x ⟨hk', hname', hp'⟩
    exact ⟨hk', hname', hp'.widen ho (.refl own .none n)⟩

theorem names_of_declarators {k : Machine} {ts : List Node} {xs : List String}
    (h : List.Forall₂ (fun t x => IsDeclarator own x k t n) ts xs) :
    ts.filterMap Node.name? = xs ∧ ∀ t ∈ ts, t.kind = .declarator ∧ Part own k n t.flatten := by
  induction h with
  | nil => exact ⟨rfl, by simp⟩
  | cons ht _ ih =>
    exact ⟨by rw [List.filterMap_cons, ht.2.1, ih.1],
      List.forall_mem_cons.2 ⟨⟨ht.1, ht.2.2⟩, ih.2⟩⟩

/-- The declaration of the names that were made up for it. -/
theorem builds_localDeclaration {m₀ : Machine} {f : Nat}
    {es : List ((String × Nat) × List Node)} {xs : List String}
    (hx : Named own f p (es.map Prod.fst) m₀ m xs) (hm : Onward own r m₀ m)
    (hv : ∀ e ∈ es, ∀ q ∈ e.2, Builds own m (f :: env) q (IsPart own)) :
    Builds own m (f :: env) (construct NodeKind.localDeclaration.name (es.map declaring))
      fun _ v n => IsStatement own m₀ v n := by
  refine builds_methodCall (by decide) ofName?_syntax (builds_declarators hx.values hv) ?_
  rintro k _ n hstart hn ho ⟨ts, rfl, hts⟩
  obtain ⟨names, parts⟩ := names_of_declarators hts
  have children : ts.map Value.node = (ts.map Child.node).map valueOf := by
    rw [List.map_map]
    rfl
  rw [callMethod_construct, children, constructNode_map_valueOf, pure_bind]
  refine .bind (after_newIdentity hn) fun id n' hn' ho' _ => .pure hn' ?_
  refine ⟨.node _, rfl, fun t ht => ?_⟩
  cases ht
  have nodes : Node.nodes { Node.build .localDeclaration (ts.map Child.node) with id } = ts :=
    (Node.nodes_build .localDeclaration _).trans (by simp)
  have introduced : Node.introduced
      { Node.build .localDeclaration (ts.map Child.node) with id } = xs :=
    (congrArg (List.filterMap Node.name?) nodes).trans names
  refine .of_localDeclaration rfl (introduced ▸ hx.nodup) ?_ ?_
  · rw [introduced]
    exact fun x hmem => (hx.new x hmem).widen (.refl own .none m₀) (hstart.trans (ho.trans ho'))
  · rw [introduced, nodes]
    intro c hc
    obtain ⟨hk, hp⟩ := parts c hc
    refine ⟨by simp [hk], (hp.widen hstart ho').widen hm (.refl own .none n'), ?_⟩
    exact fun x hmem => ((hx.new x hmem).here.onward hstart).not_mem hp.fresh

/-- A loop over a variable whose name was made up for it. -/
theorem builds_loop {m₀ : Machine} {f : Nat} {e : String × Nat} {x : String} {parts : List Node}
    (hx : Named own f p [e] m₀ m [x]) (hm : Onward own r m₀ m)
    (hv : ∀ q ∈ parts, Builds own m (f :: env) q (IsPart own)) :
    Builds own m (f :: env) (construct NodeKind.forEachStatement.name
        (.identifier (holderName e.1 e.2) :: parts)) fun _ v n => IsStatement own m₀ v n := by
  have new := hx.new x List.mem_cons_self
  refine builds_constructNamed (List.forall₂_cons.1 hx.values).1 hv
    fun k n t hstart ho hk hname hc => ⟨.node t, rfl, fun _ ht => ?_⟩
  cases ht
  refine .of_forEach hk hname (new.widen (.refl own .none m₀) (hstart.trans ho)) fun c hmem => ?_
  exact ⟨((hc c hmem).widen hstart (.refl own .none n)).widen hm (.refl own .none n),
    (new.here.onward hstart).not_mem (hc c hmem).fresh⟩

/-- `var x = <wrapped call>;` under a name that was made up for it. -/
theorem builds_assignWrapped {m₀ : Machine} {f : Nat} {e : String × Nat} {x : String}
    (hx : Named own f p [e] m₀ m [x]) (form : CallForm) :
    Builds own m (f :: env) (.methodCall "Context" "CreateAssignStatement"
        [.identifier (holderName e.1 e.2), formPath form])
      fun _ v n => IsStatement own m₀ v n := by
  have new := hx.new x List.mem_cons_self
  refine builds_contextCall (.cons (builds_named (List.forall₂_cons.1 hx.values).1)
    (.one (builds_memberOf (by decide) ofName?_callForms))) ?_
  rintro k _ n hstart hn ho ⟨l, _, _, rfl, -, -, rfl, v, rfl, -⟩
  refine .bind (after_currentContext hn) ?_
  rintro _ _ - - ⟨rfl, rfl⟩
  change After own .none n (typed v.asForm >>= fun form => contextAt own >>= fun c => _) _
  refine .bind (after_typed hn _) fun form k' hk' ho' _ => ?_
  refine .bind (after_contextAt hk' own) fun c n' hn' ho'' _ => ?_
  unfold Context.assignWrapped
  cases hcall : c.provide form with
  | error e => exact .fail _
  | ok call =>
    have declarator : (Node.declarator (.ofName x) (some call)).Scopeless :=
      .of_nodes rfl (by simpa [Node.declarator] using scopeless_provide hcall)
    refine .bind (after_newIdentity hn') fun id l' hl' ho₃ _ => .pure hl' ?_
    have later := hstart.trans (ho.trans (ho'.trans (ho''.trans ho₃)))
    refine ⟨.node _, rfl, fun _ ht => ?_⟩
    cases ht
    refine .of_localDeclaration rfl (List.nodup_singleton x) ?_ ?_
    · exact List.forall_mem_singleton.2 (new.widen (.refl own .none m₀) later)
    · exact List.forall_mem_singleton.2 ⟨by simp [Node.declarator],
        .flatten_of_scopeless declarator, by simp [declarator.flatten, declarator.variableNames]⟩

/-- Names are made up, then code with declarations of these names is added. -/
theorem adds_named (es : List (String × Nat)) {q : Node} (hes : (es.map Prod.snd).Nodup)
    (hq : ∀ f env p m₀ m xs, Named own f p es m₀ m xs → Onward own (.block f p) m₀ m →
      Builds own m (f :: env) q fun _ v n => IsStatement own m₀ v n) :
    Adds own a (es.map naming ++ [addition a q]) := by
  intro b f env m p hm hf hp
  rw [inOrder_append]
  refine .bind (after_namings es hm hf hp.held hes b) ?_
  rintro _ n hn ho ⟨rfl, xs, hxs⟩
  dsimp only
  rw [inOrder]
  refine .bind (after_addition hn (hp.onward ho) (hq f env p m n xs hxs ho) hxs.list b f) ?_
  intro flow k hk _ hg
  cases flow <;> exact .pure hk hg

theorem adds_declaration {es : List ((String × Nat) × List Node)}
    (hes : (es.map fun e => e.1.2).Nodup)
    (hv : ∀ e ∈ es, ∀ q ∈ e.2, ∀ start env, Builds own start env q (IsPart own)) :
    Adds own a (es.map (fun e => naming e.1) ++
      [addition a (construct NodeKind.localDeclaration.name (es.map declaring))]) := by
  have named : es.map (fun e => naming e.1) = (es.map Prod.fst).map naming := by
    rw [List.map_map]
    rfl
  rw [named]
  exact adds_named _ (by rwa [List.map_map]) fun f env p m₀ m xs hx ho =>
    builds_localDeclaration hx ho fun e he q hq => hv e he q hq m (f :: env)

/-- The names of one declaration. -/
theorem Named.singleton {f : Nat} {e : String × Nat} {xs : List String}
    (h : Named own f p [e] m n xs) : ∃ x, xs = [x] := by
  obtain _ | ⟨-, hxs⟩ := h.values
  cases hxs
  exact ⟨_, rfl⟩

theorem adds_loop (e : String × Nat) {parts : List Node}
    (hv : ∀ q ∈ parts, ∀ start env, Builds own start env q (IsPart own)) :
    Adds own a [naming e, addition a (construct NodeKind.forEachStatement.name
      (.identifier (holderName e.1 e.2) :: parts))] := by
  refine adds_named [e] (List.nodup_singleton _) fun f env p m₀ m xs hx ho => ?_
  obtain ⟨x, rfl⟩ := hx.singleton
  exact builds_loop hx ho fun q hq => hv q hq m (f :: env)

theorem adds_assignWrapped (e : String × Nat) (form : CallForm) :
    Adds own a [naming e, addition a (.methodCall "Context" "CreateAssignStatement"
      [.identifier (holderName e.1 e.2), formPath form])] := by
  refine adds_named [e] (List.nodup_singleton _) fun f env p m₀ m xs hx _ => ?_
  obtain ⟨x, rfl⟩ := hx.singleton
  exact builds_assignWrapped hx form

/-! ## Control flow of the generator -/

/-- A run in a frame that was opened for it is a run of the block around it. -/
theorem After.bindFrame {α β : Type} {f : Nat} {run : Run α} {k : α → Run β}
    {Q : α → Machine → Prop} {R : β → Machine → Prop} (h : After own .none m run Q)
    (hk : ∀ x n, Tame own n → Onward own .none m n → Q x n → ∃ f', m.frames.size ≤ f' ∧
      After own (.block f' p) n (k x) R) : After own (.block f p) m (run >>= k) R := by
  intro y l hl
  rw [run_bind] at hl
  cases hr : run m with
  | error e n => rw [hr] at hl; cases hl
  | ok x n =>
    rw [hr] at hl
    obtain ⟨tame, onward, hq⟩ := h x n hr
    obtain ⟨f', hf', later⟩ := hk x n tame onward hq
    obtain ⟨tame', onward', hR⟩ := later y l hl
    exact ⟨tame', onward.leaveFrame onward' hf', hR⟩

/-- What comes first leaves the blocks under construction alone. -/
theorem After.bindGrown {α : Type} {f : Nat} {run : Run α} {k : α → Run Flow}
    {Q : α → Machine → Prop} (hp : Held m p) (h : After own .none m run Q)
    (hk : ∀ x n, Tame own n → Onward own .none m n → Q x n → After own (.block f p) n (k x)
      fun flow l => Grown own p n l ∧ Leaves l flow) :
    After own (.block f p) m (run >>= k) fun flow l => Grown own p m l ∧ Leaves l flow := by
  have first := h.mono fun x n ho hx => (⟨ho, hx⟩ : Onward own .none m n ∧ Q x n)
  refine .bind (first.weaken f p) ?_
  rintro x n hn - ⟨ho, hx⟩
  intro flow l hl
  obtain ⟨tame, ho', hg, hv⟩ := hk x n hn ho hx flow l hl
  exact ⟨tame, ho', (Grown.of_held hp ho).trans ho ho' hg, hv⟩

/-- A branch or loop body of the generator. -/
def IsBranch (own a : Nat) (q : Node) : Prop := ∃ qs, q = .block qs ∧ Adds own a qs

/-- A block of the generator adds to the block around it. -/
theorem IsBranch.after {q : Node} (h : IsBranch own a q) (hm : Tame own m)
    (hp : Finds m a p env) (b f : Nat) :
    After own (.block f p) m (exec own b env q)
      fun flow n => Grown own p m n ∧ Leaves n flow := by
  obtain ⟨qs, rfl, h⟩ := h
  cases b with
  | zero =>
    rw [exec]
    exact .throw _
  | succ b =>
    rw [exec_block]
    refine .bindFrame (after_nestedIn hm env) ?_
    rintro _ _ hn ho ⟨rfl, rfl⟩
    refine ⟨m.frames.size, Nat.le_refl _, ?_⟩
    refine (h b m.frames.size env m.openFrame p hn ?_ (hp.openFrame ho)).mono ?_
    · simp [Machine.openFrame]
    · rintro flow n ho' ⟨hg, hv⟩
      exact ⟨(Grown.of_held hp.held ho).trans ho ho' hg, hv⟩

theorem IsBranch.kind {q : Node} (h : IsBranch own a q) : q.kind = .block := by
  obtain ⟨qs, rfl, -⟩ := h
  rfl

theorem adds_if {condition thenCode : Node} {elseCode : Option Node} (hc : Modest condition)
    (he : condition.kind ≠ .elseClause) (ht : IsBranch own a thenCode)
    (helse : ∀ code, elseCode = some code → IsBranch own a code) :
    Adds own a [.ifStatement condition thenCode elseCode] := by
  refine .of_one fun b f env m p hm hf hp => ?_
  cases b with
  | zero =>
    rw [exec]
    exact .throw _
  | succ b =>
    rw [exec_ifStatement b _ _ elseCode he (by simp [ht.kind])]
    refine .bindGrown hp.held (after_eval b hc (f :: env) hm) fun v n hn ho _ => ?_
    refine .bindGrown (hp.held.onward ho) (after_typed hn _) fun chosen n' hn' ho' _ => ?_
    have found := (hp.onward ho).onward ho'
    cases chosen with
    | true => exact ht.after hn' found b f
    | false =>
      cases elseCode with
      | none => exact .pure hn' ⟨.of_eq rfl, .ongoing⟩
      | some code => exact (helse code rfl).after hn' found b f

theorem adds_forEach {name : Token} {source body : Node} (hn : name.kind = .identifier)
    (ho : isOpenName name.text) (hs : Modest source) (hb : IsBranch own a body) :
    Adds own a [.forEachStatement false name source body] := by
  refine .of_one fun b f env m p hm hf hp => ?_
  cases b with
  | zero =>
    rw [exec]
    exact .throw _
  | succ b =>
    rw [exec_forEachStatement b _ source body hn]
    refine .bindGrown hp.held (after_eval b hs (f :: env) hm) fun v n hn ho₁ hv => ?_
    refine .bindGrown (hp.held.onward ho₁) (after_itemsOf hn hv) fun items n' hn' ho₂ hi => ?_
    have found := (hp.onward ho₁).onward ho₂
    refine .forEachItem accrues_grown items hn' hi fun item l hl ho₃ hitem => ?_
    have found := found.onward ho₃
    refine .bindGrown found.held (after_nestedIn hl (f :: env)) ?_
    rintro _ _ hl' ho₄ ⟨rfl, rfl⟩
    refine .bindGrown (found.openFrame ho₄).held
      (after_define hl' ho (hitem.onward ho₄) _) fun _ l' hl'' ho₅ _ => ?_
    exact hb.after hl'' ((found.openFrame ho₄).onward ho₅) b f

/-! ## Bodies -/

/-- The machine where a block was opened and its accumulator holds a new list. -/
def opened (a : Nat) (m : Machine) : Machine :=
  ({ m.openFrame with lists := m.lists.push #[] } : Machine).update m.frames.size
    (accumulatorName a) (.list m.lists.size)

theorem look_opened (a : Nat) (m : Machine) (f : Nat) (name : String) :
    look (opened a m) f name = if f = m.frames.size ∧ name = accumulatorName a
      then some (.list m.lists.size) else look m f name := by
  rw [opened, look_update _ (by simp [Machine.openFrame])]
  exact if_congr Iff.rfl rfl (look_openFrame f name)

theorem lists_opened (a : Nat) (m : Machine) {p : Nat} (hp : p < m.lists.size) :
    (opened a m).lists[p]? = m.lists[p]? := by
  change (m.lists.push #[])[p]? = _
  rw [Array.getElem?_push, if_neg (by omega)]

theorem onward_opened (hm : Tame own m) (a : Nat) : Onward own .none m (opened a m) := by
  refine ⟨fun c hc => ⟨c, hc, rfl, rfl, rfl, .refl _⟩, rfl, by simp [opened, Machine.update],
    by simp [opened, Machine.update, Machine.openFrame], ?_, ?_,
    fun hc => absurd hc Bool.false_ne_true, ?_⟩
  · intro f hf name _ _
    rw [look_opened, if_neg fun h => by omega]
  · rintro p hp ⟨f, k, hv⟩
    rw [look_opened] at hv
    split at hv
    · cases hv
      omega
    · exact ⟨f, k, hv⟩
  · exact fun p hp _ => lists_opened a m (hm.lt_of_held hp)

theorem tame_opened (hm : Tame own m) (a : Nat) : Tame own (opened a m) := by
  have onward := onward_opened hm a
  have held : Held (opened a m) m.lists.size :=
    ⟨m.frames.size, a, by rw [look_opened, if_pos ⟨rfl, rfl⟩]⟩
  refine ⟨hm.context, hm.active, fun p items hp hh v hv => ?_, fun f name v hv => ?_⟩
  · have hlt : p < m.lists.size := by
      have hsize := (Array.getElem?_eq_some_iff.1 hp).1
      have hne : p ≠ m.lists.size := fun h => hh (h ▸ held)
      simp only [opened, Machine.update, Array.size_push] at hsize
      omega
    rw [lists_opened a m hlt] at hp
    exact (hm.lists p items hp (fun h => hh (h.onward onward)) v hv).onward onward
  · rw [look_opened] at hv
    split at hv
    · next h =>
      cases hv
      rw [h.2]
      exact .accumulator (by simp [opened, Machine.update])
    · exact (hm.fitting f name v hv).onward onward

theorem after_statementList (hm : Tame own m) (b : Nat) (env : Scoping) :
    After own .none m (eval own b env (construct "StatementList" [])) fun v n =>
      v = .list m.lists.size ∧ n = { m with lists := m.lists.push #[] } := by
  have builds : Builds own m env (construct "StatementList" []) fun m v n =>
      v = .list m.lists.size ∧ n = { m with lists := m.lists.push #[] } := by
    refine builds_methodCall (by decide) ofName?_syntax .nil ?_
    rintro m _ _ - hn - ⟨rfl, rfl⟩ v n hv
    have none : ∀ v ∈ (#[] : Array Value), Bare m v := by simp
    obtain ⟨tame, onward, -⟩ := after_newPlace (r := .none) hn none _ _ rfl
    cases hv
    exact ⟨tame, onward, rfl, rfl⟩
  exact builds b m hm (.refl _ _ _)

/-- A block that collects statements starts with a list of its own. -/
theorem after_opening (hm : Tame own m) (a b : Nat) (env : Scoping) :
    After own .none m (do
      let inner ← nestedIn env
      let flow ← exec own b inner (openAccumulator (accumulatorName a))
      return (inner, flow)) fun out n =>
        out = (m.frames.size :: env, .ongoing) ∧ n = opened a m := by
  have nested : nestedIn env m = .ok (m.frames.size :: env) m.openFrame := rfl
  obtain ⟨hframe, -⟩ := after_nestedIn (r := .none) hm env _ _ nested
  intro out n hn
  rw [run_bind, nested] at hn
  simp only [run_bind] at hn
  rcases b with _ | b
  · rw [exec] at hn
    cases hn
  · rw [openAccumulator, exec_localDeclaration] at hn
    simp only [run_bind] at hn
    cases hv : eval own b (m.frames.size :: env) (construct "StatementList" []) m.openFrame with
    | error e k => rw [hv] at hn; cases hn
    | ok v k =>
      obtain ⟨-, -, rfl, rfl⟩ := after_statementList hframe b _ v k hv
      rw [hv] at hn
      cases hn
      exact ⟨tame_opened hm a, onward_opened hm a, rfl, rfl⟩

/-- The block of a frame and a list that are new is nobody else's. -/
theorem After.bindBlock {α β : Type} {run : Run α} {k : α → Run β} {Q : α → Machine → Prop}
    {R : β → Machine → Prop} (hm : Tame own m) (h : After own .none m run Q)
    (hk : ∀ x n, Tame own n → Onward own .none m n → Q x n → ∃ f p, m.frames.size ≤ f ∧
      m.lists.size ≤ p ∧ After own (.block f p) n (k x) R) : After own .none m (run >>= k) R := by
  intro y l hl
  rw [run_bind] at hl
  cases hr : run m with
  | error e n => rw [hr] at hl; cases hl
  | ok x n =>
    rw [hr] at hl
    obtain ⟨tame, onward, hq⟩ := h x n hr
    obtain ⟨f, p, hf, hp, later⟩ := hk x n tame onward hq
    obtain ⟨tame', onward', hR⟩ := later y l hl
    exact ⟨tame', onward.leaveBlock hm onward' hf hp, hR⟩

/-- The first two of three runs can be taken together. -/
theorem bind_paired {α β γ : Type} (x : Run α) (f : α → Run β) (k : α → β → Run γ) :
    (x >>= fun a => f a >>= k a) = (do
      let a ← x
      let b ← f a
      return (a, b)) >>= fun out => k out.1 out.2 := by
  simp only [bind_assoc, pure_bind]

/-- A block of the generator that opens an accumulator, runs statements and returns a value made of
what they added. A `return` of the template's own may come first. -/
theorem after_accumulating {qs : List Node} {result : Node} (hm : Tame own m)
    (h : Adds own a qs) {Q : Value → Machine → Prop}
    (hresult : ∀ b env n p (cs : List (Child Node)), Tame own n → Onward own .none m n →
      Finds n a p env → n.lists[p]? = some (cs.map valueOf).toArray →
      Settled own m n ((cs.filterMap Child.node?).flatMap Node.contents) →
      After own .none n (eval own b env result) Q) (b : Nat) (env : Scoping) :
    After own .none m (exec own b env (.block (openAccumulator (accumulatorName a) :: qs ++
        [Node.returnStatement (some result)])) >>= Flow.value)
      fun v n => Bare n v ∨ Q v n := by
  rcases b with _ | b
  · rw [exec]
    exact .throw _
  rw [exec_block, List.cons_append]
  simp only [inOrder, bind_assoc]
  rw [bind_paired]
  refine .bindBlock hm (after_opening hm a b env) ?_
  rintro _ _ hn ho ⟨rfl, rfl⟩
  refine ⟨m.frames.size, m.lists.size, Nat.le_refl _, Nat.le_refl _, ?_⟩
  have found : Finds (opened a m) a m.lists.size (m.frames.size :: env) :=
    .here (by rw [look_opened, if_pos ⟨rfl, rfl⟩])
  have inside : m.frames.size < (opened a m).frames.size := by
    simp [opened, Machine.update, Machine.openFrame]
  have fresh : (opened a m).lists[m.lists.size]? = some #[] := by
    change (m.lists.push #[])[m.lists.size]? = _
    simp
  dsimp only
  rw [inOrder_append, bind_assoc]
  refine .bind (h b _ env _ _ hn inside found) ?_
  rintro flow n hn' ho' ⟨⟨cs, hl, hs⟩, hv⟩
  cases flow with
  | broken => exact .fail _
  | continued => exact .fail _
  | returned v => exact .pure hn' (.inl (hv v rfl))
  | ongoing =>
    rcases b with _ | b
    · simp only [inOrder, bind_assoc]
      refine .bind (Q := fun _ _ => False) ?_ fun _ _ _ _ h => h.elim
      rw [exec]
      exact .throw _
    · simp only [inOrder, exec_returnStatement, bind_assoc, pure_bind, Flow.value, bind_pure]
      have list : n.lists[m.lists.size]? = some (cs.map valueOf).toArray := by
        rw [hl, fresh]
        simp
      have onward := ho.leaveBlock hm ho' (Nat.le_refl _) (Nat.le_refl _)
      refine ((hresult b _ n _ cs hn' onward (found.onward ho') list
        (hs.widen ho (.refl own .none n))).weaken _ _).mono fun v _ _ hq => .inr hq

/-! ## Closures -/

/-- A block of what the value stands for is a part of generated code. -/
def Encloses (own : Nat) (m : Machine) (v : Value) (n : Machine) : Prop :=
  ∀ cs, toChildren n.lists v = .ok cs → ∀ t : Node, t.kind = .block → t.children = cs →
    Part own m n t.flatten

theorem part_block {t : Node} (hk : t.kind = .block)
    (h : Settled own m n (t.nodes.flatMap Node.contents)) : Part own m n t.flatten :=
  h.block (by rw [Node.kind_flatten, hk]) (Node.nodes_flatten_block hk)

theorem toChildren_list {lists : Array (Array Value)} {cs : List (Child Node)}
    (h : lists[p]? = some (cs.map valueOf).toArray) : toChildren lists (.list p) = .ok cs := by
  have each (depth : Nat) (ds : List (Child Node)) :
      (ds.map valueOf).mapM (spread lists leafChildren .flatten depth) =
        .ok (ds.map fun c => [c]) := by
    induction ds with
    | nil => rfl
    | cons d ds ih =>
      have first : spread lists leafChildren .flatten depth (valueOf d) = .ok [d] := by
        cases d <;> cases depth <;> rfl
      rw [List.map_cons, List.mapM_cons, first, ih]
      rfl
  rw [toChildren, nesting, spread, h]
  simp only [Option.getD_some]
  rw [each]
  simp [bind, Except.bind, pure, Except.pure, ← List.flatMap_def]

theorem Encloses.of_list {cs : List (Child Node)}
    (h : n.lists[p]? = some (cs.map valueOf).toArray)
    (hs : Settled own m n ((cs.filterMap Child.node?).flatMap Node.contents)) :
    Encloses own m (.list p) n := by
  intro ds hds t hk ht
  rw [toChildren_list h] at hds
  cases hds
  exact part_block hk (by rwa [Node.nodes, ht])

theorem Encloses.of_bare {v : Value} (hn : Tame own n) (hv : Bare n v) : Encloses own m v n := by
  intro cs hcs t hk ht
  have scopeless := scopeless_toChildren hn hv hcs
  have nodes : ∀ u ∈ t.nodes, u.Scopeless :=
    fun u hu => scopeless u (ht ▸ Node.mem_nodes.1 hu)
  have contents : t.nodes.flatMap Node.contents = t.nodes :=
    (List.flatMap_congr fun u hu => (nodes u hu).contents).trans (List.flatMap_singleton' _)
  refine part_block hk ?_
  rw [contents]
  exact .of_scopeless nodes

theorem Encloses.widen {k : Machine} {v : Value} (h : Encloses own n v k)
    (ho : Onward own r m n) : Encloses own m v k :=
  fun cs hcs t hk ht => (h cs hcs t hk ht).widen ho (.refl own .none k)

/-- What a nested scope gathers is enclosed outside it too. -/
theorem Encloses.leave {k n' : Machine} {v : Value} (h : Encloses own k v n')
    (he : Enclosed own m k n' n) : Encloses own m v n :=
  fun cs hcs t hk ht => (h cs (he.lists ▸ hcs) t hk ht).leave he

theorem after_newClosure (hm : Tame own m) : After own r m newClosure fun _ _ => True := by
  intro id n hn
  cases hn
  obtain ⟨tame, onward⟩ := renumbered (r := r) (n := { m with closures := m.closures + 1 }) hm
    rfl rfl rfl rfl
  exact ⟨tame, onward, trivial⟩

theorem after_thunk (hm : Tame own m) (b : Nat) (env : Scoping) (body : Node)
    (hb : body.kind ≠ .parameter) :
    After own r m (eval own b env (.parenthesized (.thunk body)))
      fun v _ => ∃ id, v = .closure id ⟨[], body, env⟩ := by
  rcases b with _ | _ | b
  · rw [eval]
    exact .throw _
  · rw [eval]
    change After own r m (eval own 0 env (.thunk body)) _
    rw [eval]
    exact .throw _
  · rw [eval]
    change After own r m (eval own (b + 1) env (.thunk body)) _
    rw [eval]
    change After own r m (closureOf env (.thunk body)) _
    have made : closureOf env (.thunk body) =
        (newClosure >>= fun id => pure (.closure id ⟨[], body, env⟩)) := by
      simp [closureOf, Node.thunk, Option.filter, hb]
    rw [made]
    exact .bind (after_newClosure hm) fun id _ hn _ _ => .pure hn ⟨id, rfl⟩

/-- The call of a closure runs its body in a frame and a scope of its own. -/
theorem after_closureCall {body : List Node} {Q : Value → Machine → Prop} (hm : Tame own m)
    (h : ∀ b env n, Tame own n → Onward own .none m n → After own .none n
      (inNestedScope own (exec own b env (.block body) >>= Flow.value)) Q) (b : Nat)
    (env : Scoping) : After own .none m (eval own b env (closureCall body)) Q := by
  rcases b with _ | b
  · rw [eval]
    exact .throw _
  have hnodes : (closureCall body).nodes = [.parenthesized (.thunk (.block body))] :=
    Node.nodes_invocation ..
  have hkind : (closureCall body).kind = .invocation := rfl
  rw [eval]
  simp only [hkind, childOf, Node.node?, hnodes, List.getElem?_cons_zero, List.tail_cons, pure_bind,
    List.mapM_nil]
  rw [if_neg (by simp [Node.parenthesized])]
  refine .bind (after_thunk hm b env (.block body) (by simp [Node.block])) ?_
  rintro _ n hn ho ⟨id, rfl⟩
  rcases b with _ | b
  · change After own .none n (call own 0 _ _) Q
    rw [call]
    exact .throw _
  · change After own .none n (call own (b + 1) _ _) Q
    rw [call]
    change After own .none n (nestedIn env >>= fun inner =>
      inNestedScope own (exec own b inner (.block body) >>= Flow.value)) Q
    exact .bind (after_nestedIn hn env) fun inner n' hn' ho' _ => h b inner n' hn' (ho.trans ho')

/-- A closure gives the list of what its statements add. -/
theorem builds_closure {start : Machine} {qs : List Node} (h : Adds own a qs) :
    Builds own start env (closureCall (openAccumulator (accumulatorName a) :: qs ++
      [Node.returnStatement (some (.identifier (accumulatorName a)))])) (Encloses own) := by
  intro b m hm _
  refine after_closureCall hm (fun b env n hn ho => ?_) b env
  have gathered (k : Machine) (hk : Tame own k) := (after_accumulating hk h
    (Q := Encloses own k) (fun b env n p cs hn _ hf hl hs =>
      (after_accumulator hn hf b).mono fun _ _ _ ⟨hv, hn⟩ => hn ▸ hv ▸ .of_list hl hs) b env).tame
  refine after_inNestedScope hn gathered ?_
  rintro k n' l v he ⟨hn', hv⟩
  have inside : Encloses own k v n' := hv.elim (.of_bare hn') id
  exact (inside.leave he).widen ho

/-! ## Blocks of what a closure gave -/

theorem after_constructBlock (hm : Tame own m) (v : Value) :
    After own r m (constructNode .block [v]) fun t n =>
      m = n ∧ ∃ cs, t = .build .block cs ∧ toChildren m.lists v = .ok cs := by
  refine (after_reading hm _).mono fun t n _ ⟨hn, ht⟩ => ⟨hn.symm, ?_⟩
  cases hcs : toChildren m.lists v with
  | error e => simp [hcs, bind, Except.bind] at ht
  | ok cs =>
    simp only [List.mapM_cons, List.mapM_nil, hcs, bind, Except.bind, pure, Except.pure,
      List.flatten_cons, List.flatten_nil, List.append_nil, Except.ok.injEq] at ht
    exact ⟨cs, ht.symm, rfl⟩

/-- A block that the generator builds for one of the template stays where it is. -/
theorem after_blockOf {k : Machine} {v : Value} (hm : Tame own m) (hv : Encloses own k v m) :
    After own r m (callMethod (.builtin .nodes) "Block" [v]) fun w n =>
      ∃ t, w = .node t ∧ Piece own k n t := by
  change After own r m (callMethod (.builtin .nodes) NodeKind.block.name [v]) _
  rw [callMethod_construct]
  refine .bind (after_constructBlock hm v) ?_
  rintro _ _ hn - ⟨rfl, cs, rfl, hcs⟩
  refine .bind (after_newIdentity hn) fun id n hn' ho _ => .pure hn' ⟨_, rfl, ?_⟩
  refine .of_kept rfl ?_ ((hv cs hcs _ rfl rfl).widen (.refl own .none k) ho)
  rw [Node.build, Node.flatten_block]
  rfl

theorem builds_blockOf {start : Machine} {q : Node} (h : Builds own start env q (Encloses own)) :
    Builds own start env (construct "Block" [q]) (IsPiece own) := by
  refine builds_methodCall (by decide) ofName?_syntax (.one h) ?_
  rintro m _ n - hn - ⟨v, rfl, hv⟩
  exact (after_blockOf hn hv).mono fun _ _ _ ⟨_, hw, hp⟩ => hw ▸ .of_node hp

/-- A block that the generator makes up for a single statement is a part of code. -/
theorem builds_syntheticBlockOf {start : Machine} {q : Node}
    (h : Builds own start env q (Encloses own)) :
    Builds own start env (construct "SyntheticBlock" [q]) (IsPart own) := by
  refine builds_methodCall (by decide) ofName?_syntax (.one h) ?_
  rintro m _ n - hn - ⟨v, rfl, hv⟩
  change After own .none n (constructNode .block [v] >>= fun t => newNode (t.mark .synthetic)) _
  refine .bind (after_constructBlock hn v) ?_
  rintro _ _ hn - ⟨rfl, cs, rfl, hcs⟩
  refine .bind (after_newIdentity hn) fun id n' hn' ho _ => .pure hn' (.of_node ?_)
  exact (hv cs hcs _ rfl rfl).widen (.refl own .none m) ho

end Stencil.Quotation
