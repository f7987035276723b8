import Mathlib.Data.List.Perm.Basic
import Stencil.Environment.Standard
import Stencil.Proofs.Facts.Scoped

/-!
# Names resolve lexically

The symbols of a file are numbered in the order in which the walk comes to the declarations. With
them the rule of lexical scoping fits the walk, so a name in a text that parses refers to the
declaration that the rule gives it, else to a global of the environment, else to nothing.

Results:

* `order_perm` – the walk comes to every declaration once;
* `names_resolve_lexically` – what the resolver finds out about the names of a text.
-/
namespace Stencil

namespace Resolution

open Lexical

variable {e : Environment} {t n c d x : Node}

/-! ## Symbols of declarations -/

theorem order_perm (n : Node) : (order n).Perm (n.preorder.filter (·.kind.declares)) := by
  have children : ((n.nodes.map order).flatten).Perm
      ((n.nodes.flatMap Node.preorder).filter (·.kind.declares)) := by
    rw [List.filter_flatMap, ← List.flatMap_def]
    refine List.Perm.flatMap_left _ fun m hm => ?_
    have := Node.size_lt_of_mem hm
    exact order_perm m
  have self : n.preorder.filter (·.kind.declares) = (if n.kind.declares then [n] else []) ++
      (n.nodes.flatMap Node.preorder).filter (·.kind.declares) := by
    rw [preorder_nodes, List.filter_cons]
    split <;> rfl
  rw [order_eq, self]
  extract_lets parts late
  have parts_perm : parts.flatten.Perm (n.nodes.map order).flatten := by
    change (if n.kind = .assignment then _ else _ : List (List Node)).flatten.Perm _
    split
    · exact (List.reverse_perm _).flatten
    · exact .refl _
  have split : (parts.take late).flatten ++ (parts.drop late).flatten = parts.flatten := by
    rw [← List.flatten_append, List.take_append_drop]
  refine (List.perm_append_comm.append_right _).trans ?_
  rw [List.append_assoc, split]
  exact (parts_perm.trans children).append_left _
termination_by n.size

theorem mem_order : d ∈ order n ↔ d ∈ n.preorder ∧ d.kind.declares := by
  rw [(order_perm n).mem_iff, List.mem_filter]

theorem nodup_order (h : n.Numbered) : ((order n).map Node.id).Nodup :=
  ((order_perm n).map _).nodup_iff.2 (List.Nodup.sublist (List.filter_sublist.map _) h)

/-- The symbol of a declaration in the tree `t`. -/
def symbolOf (e : Environment) (t d : Node) : Symbol where
  id := e.firstFreeId + ((order t).map Node.id).idxOf d.id
  name := d.nameOrEmpty
  kind := declaredKind ((scopes t d).head?.any (·.kind == .lambda)) d.kind
  container := none
  deferred := none

/-- The numbers of the symbols follow those of the environment. -/
theorem symbols_numbered (e : Environment) (h : t.Numbered) :
    (order t).map (fun d => (symbolOf e t d).id) =
      List.range' e.firstFreeId (order t).length := by
  refine List.ext_getElem (by simp) fun i hi _ => ?_
  have inside : i < ((order t).map Node.id).length := by simpa using hi
  have place := (nodup_order h).idxOf_getElem i inside
  rw [List.getElem_map] at place
  simp only [List.getElem_map, List.getElem_range', symbolOf, place, Nat.one_mul]

theorem symbolOf_inj (h : t.Numbered) {d' : Node} (hd : d ∈ order t) (hd' : d' ∈ order t)
    (he : (symbolOf e t d).id = (symbolOf e t d').id) : d = d' := by
  have place : ((order t).map Node.id).idxOf d.id = ((order t).map Node.id).idxOf d'.id :=
    Nat.add_left_cancel he
  have same := (List.idxOf_inj (List.mem_map_of_mem hd)).1 place
  exact h.eq_of_id (mem_order.1 hd).1 (mem_order.1 hd').1 same

theorem mem_visible (hd : d ∈ visible t x) : d ∈ t.preorder ∧ d.kind.declares := by
  obtain ⟨p, -, hd⟩ := List.mem_flatMap.1 hd
  obtain ⟨hd, hk⟩ := List.mem_filter.1 (List.mem_filter.1 (List.mem_reverse.1 hd)).1
  rw [Bool.and_eq_true] at hk
  exact ⟨mem_of_mem_earlier hd, hk.1⟩

/-- Where a declaration is visible, the scopes around it are around as well. -/
theorem mem_scope_of_visible (h : t.Numbered) (hx : x ∈ t.preorder) (hd : d ∈ visible t x)
    {p : Node} (hp : p ∈ t.preorder) (hk : p.kind.isScope) (hdp : d ∈ p.preorder)
    (own : d = p → d.kind.declaresWithin) : x ∈ p.preorder := by
  obtain ⟨inside, -⟩ := mem_visible hd
  obtain ⟨q, hq, hd⟩ := List.mem_flatMap.1 hd
  obtain ⟨hqt, part, hpart, hxq⟩ := exists_part h hx hq
  have owner := (List.mem_filter.1 (List.mem_filter.1 (List.mem_reverse.1 hd)).1).2
  rw [Bool.and_eq_true, any_scopeOf? h inside hqt] at owner
  exact Node.preorder_trans (scopeOf?_within h hp hk hdp own owner.2)
    (Node.preorder_subset hpart hxq)

/-- Parameters stand below what has them, all of which are scopes. -/
theorem isScope_of_parameter (h : n.FitsKind) (hc : c ∈ n.nodes) (hk : c.kind = .parameter) :
    n.kind.isScope := by
  by_contra hs
  refine h.child_ne ?_ hc hk
  revert hs
  cases n.kind <;> first | exact fun _ => rfl | exact fun hs => absurd rfl hs

/-- The tree follows the grammar and is numbered apart. -/
structure Regular (t : Node) : Prop where
  numbered : t.Numbered
  file : t.kind = .compilationUnit
  rules : ∀ m ∈ t.preorder, Rule m.kind m.outline
  laid : t.Laid

namespace Regular

variable (h : Regular t)

include h

theorem exists_name (hd : d ∈ t.preorder) (hk : d.kind.declares ∨ d.kind = .identifier) :
    ∃ name, d.name? = some name := (h.rules d hd).exists_name hk

theorem name_symbolOf (hd : d ∈ t.preorder) (hk : d.kind.declares) :
    d.name? = some (symbolOf e t d).name := by
  obtain ⟨name, hname⟩ := h.exists_name hd (.inl hk)
  rw [symbolOf, Node.nameOrEmpty, hname]
  rfl

/-- The rule of lexical scoping fits the walk. -/
theorem suits (e : Environment) : Suits (symbolOf e t) (visible t) t := by
  intro n hn
  have fits : n.FitsKind := (h.laid.below hn).here
  refine ⟨h.rules n hn, fits, fun c hc _ => ?_, fun d hd => ?_, fun pre c post hnodes =>
    visible_child h.numbered h.file hn hnodes⟩
  · have kind : declaredKind ((scopes t c).head?.any (·.kind == .lambda)) c.kind =
        declaredKind (n.kind == .lambda) c.kind := by
      rw [scopes_child h.numbered hn hc]
      by_cases hs : n.kind.isScope
      · rw [if_pos hs]
        rfl
      · have hp : c.kind ≠ .parameter := fun hp => hs (isScope_of_parameter fits hc hp)
        revert hp
        cases c.kind <;> first | exact fun _ => rfl | exact fun hp => absurd rfl hp
    rw [← kind]
    rfl
  · obtain ⟨inside, hk⟩ := mem_visible hd
    exact h.name_symbolOf inside hk

end Regular

theorem regular_number {source : String} {read : Node} (h : Source.parseUnit source = .ok read)
    (next : Nat) : Regular (read.number next).1 := by
  obtain ⟨hread, hk⟩ := Source.isRead_parseUnit h
  have numbered := recast_number next read
  refine ⟨(nodup_number next read).2.1, numbered.kind.trans hk, fun m hm => ?_,
    numbered.laid hread.laid⟩
  obtain ⟨r, hr, kind, outline, -⟩ := numbered.source hm
  rw [kind, outline]
  exact (hread r hr).2.1

/-! ## What is found -/

theorem mem_of_findings {f : Findings} {id : Nat} (h : ∃ entry ∈ f, entry.1 = id) :
    (id, f.of id) ∈ f := by
  obtain ⟨entry, he, rfl⟩ := h
  obtain ⟨facts, hl⟩ := Option.isSome_iff_exists.1
    (List.lookup_isSome_iff.2 ⟨entry, he, beq_self_eq_true entry.1⟩)
  obtain ⟨before, after, split, -⟩ := List.lookup_eq_some_iff.1 hl
  rw [Findings.of, hl, Option.getD_some, split]
  exact List.mem_append_right _ List.mem_cons_self

theorem right_of_resolve (h : Regular t) {f : Findings} (hf : e.resolve t = .ok f)
    (hx : x ∈ t.preorder) (hk : x.kind.isTold) :
    Right e (symbolOf e t) (visible t) x (f.of x.id) := by
  obtain ⟨s, hs, rfl⟩ := resolve_file h.file hf
  have ready : Ready (symbolOf e t) [] (order t) (.initial e) :=
    ⟨List.cons_ne_nil _ _, rfl, symbols_numbered e h.numbered⟩
  obtain ⟨-, -, more, hmore, right, told⟩ :=
    obeys_file (h.suits e) h.file (visible_root t) _ ready _ _ hs
  have found : s.found = more := by rw [hmore, State.initial, List.append_nil]
  -- a node may be recorded more than once, and each time the facts are right
  obtain ⟨y, hy, hid, hr⟩ := right _ (found ▸ mem_of_findings (found ▸ told x hx hk))
  obtain rfl : x = y := h.numbered.eq_of_id hx hy hid
  rwa [found]

/-- Every global has a number. -/
theorem exists_symbolId? {name : String} {m : Member} (h : e.global? name = some m) :
    ∃ id, e.symbolId? name = some id := by
  obtain ⟨before, after, split, -⟩ := List.lookup_eq_some_iff.1 h
  have listed : name ∈ e.keys := List.mem_append_left _ (by rw [split]; simp [Table.names])
  obtain ⟨i, hi, hname⟩ := List.getElem_of_mem listed
  have entry : (name, i) ∈ e.keys.zipIdx.reverse :=
    List.mem_reverse.2 (List.mem_zipIdx_iff_getElem?.2 (by rw [List.getElem?_eq_getElem hi, hname]))
  exact Option.isSome_iff_exists.1 (List.lookup_isSome_iff.2 ⟨_, entry, beq_self_eq_true name⟩)

end Resolution

/-! ## The rule -/

namespace Lexical

/-- What a name stands for in a node of the tree `t`: the declaration that binds it there, else the
global of that name, else nothing. The symbol of a declaration is what `own` says. -/
structure Refers (e : Environment) (t : Node) (own : Node → Symbol) (x : Node) (name : String)
    (symbol : Option Symbol) : Prop where
  bound : ∀ d, binding? t x name = some d → symbol = some (own d)
  global : binding? t x name = none → ∀ m, e.global? name = some m →
    ∃ id, e.symbolId? name = some id ∧ symbol = some ⟨id, name, m.kind, none, m.deferred⟩
  unknown : binding? t x name = none → e.global? name = none → symbol = none

/-- The findings say for every name in the tree `t` what it stands for, and for every declaration
its symbol. Two declarations have two symbols. -/
structure Resolves (e : Environment) (t : Node) (own : Node → Symbol) (f : Findings) : Prop where
  names : ∀ x ∈ t.preorder, x.kind = .identifier →
    ∃ name, x.name? = some name ∧ Refers e t own x name (f.of x.id).symbol
  declared : ∀ d ∈ t.preorder, d.kind.isNoted → (f.of d.id).declared = some (own d)
  named : ∀ d ∈ t.preorder, d.kind.declares →
    d.name? = some (own d).name ∧ e.firstFreeId ≤ (own d).id
  apart : ∀ d ∈ t.preorder, d.kind.declares → ∀ d' ∈ t.preorder, d'.kind.declares →
    (own d).id = (own d').id → d = d'

end Lexical

open Resolution Lexical

theorem refers_referent (e : Environment) (t : Node) (own : Node → Symbol) (x : Node)
    {name : String} (h : x.name? = some name) :
    Refers e t own x name (referent e own (visible t x) x) := by
  rw [referent, h, Option.bind_some, ← binding?_eq_find?]
  refine ⟨fun d hd => ?_, fun hn m hm => ?_, fun hn hm => ?_⟩
  · rw [hd]
  · obtain ⟨id, hid⟩ := exists_symbolId? hm
    refine ⟨id, hid, ?_⟩
    rw [hn, Environment.globalSymbol?, hm, Option.bind_eq_bind, Option.bind_some, hid]
    rfl
  · rw [hn, Environment.globalSymbol?, hm]
    rfl

/-- **Names resolve lexically.** In a text that parses, whatever the environment, every name refers
to the declaration that the rule gives it, else to a global, else to nothing. -/
theorem names_resolve_lexically {source : String} {read : Node}
    (h : Source.parseUnit source = .ok read) (next : Nat) (e : Environment) :
    ∃ f own, e.resolve (read.number next).1 = .ok f ∧
      Resolves e (read.number next).1 own f := by
  have regular := regular_number h next
  obtain ⟨f, hf⟩ := regular.laid.resolves e
  have right {x : Node} (hx : x ∈ (read.number next).1.preorder) (hk : x.kind.isTold) :=
    right_of_resolve regular hf hx hk
  refine ⟨f, symbolOf e (read.number next).1, hf, fun x hx hk => ?_, fun d hd hk => ?_,
    fun d hd hk => ?_, fun d hd hk d' hd' hk' he => ?_⟩
  · obtain ⟨name, hname⟩ := regular.exists_name hx (.inr hk)
    refine ⟨name, hname, ?_⟩
    rw [(right hx (by rw [hk]; rfl)).symbol hk]
    exact refers_referent _ _ _ _ hname
  · exact (right hd (Bool.or_eq_true_iff.2 (.inr hk))).declared hk
  · exact ⟨regular.name_symbolOf hd hk, Nat.le_add_right _ _⟩
  · exact symbolOf_inj regular.numbered (mem_order.2 ⟨hd, hk⟩) (mem_order.2 ⟨hd', hk'⟩) he

/-- Two variables of one name hide a parameter in a block, and a third one hides it in a loop. -/
def redeclaring : String :=
  "template T(x) \x7b \x7b var x = x; x; var x = y; x; \x7d x; foreach (var x in x) x; \x7d"

theorem names_resolve_lexically_redeclared : ∃ read, Source.parseUnit redeclaring = .ok read ∧
    ∃ f own, Environment.standard.resolve (read.number 0).1 = .ok f ∧
      Resolves .standard (read.number 0).1 own f := by
  cases hp : Source.parseUnit redeclaring with
  | error d =>
    have parses : (Source.parseUnit redeclaring).isOk = true := by decide +kernel
    rw [hp] at parses
    cases parses
  | ok read => exact ⟨read, rfl, names_resolve_lexically hp 0 .standard⟩

/-- Where each name of the text begins, and the declaration that it refers to. -/
example : ((Source.parseUnit redeclaring).toOption.map fun read =>
    let t := (read.number 0).1
    (t.preorder.filter (·.kind == .identifier)).map fun x =>
      (x.span.start, (binding? t x x.nameOrEmpty).map (·.span.start))) =
    some [(26, some 11), (29, some 22), (40, none), (43, some 36), (48, some 11), (69, some 11),
      (72, some 51)] := by
  decide +kernel

end Stencil
