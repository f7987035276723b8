import Stencil.Proofs.Facts.LexicalNames
import Stencil.Proofs.Facts.Recorded
import Stencil.Proofs.Source.Precedence

/-!
# Symbols of distinct entities

Numbers alone do not tell symbols apart: a member may have the number of a global that is named
like the key of the member, and then the first number for a template is one that a member may have.
A declaration of a template has no container, as members do, and its name has no dot, so a global of
that name is numbered before all declarations.

Results:

* `not_ofEnvironment` – no declaration has the symbol of a global or member;
* `symbols_distinct` – the symbols of one run.
-/
namespace Stencil

open Resolution Lexical

/-- A symbol without a container, numbered after the environment and named without a dot. -/
theorem not_ofEnvironment {e : Environment} {v : Symbol}
    (container : v.container = none) (high : e.firstFreeId ≤ v.id) (dotFree : '.' ∉ v.name.toList) :
    ¬OfEnvironment e v := by
  rintro (⟨name, type, h⟩ | ⟨receiver, name, type, h⟩)
  · obtain ⟨m, -, h⟩ := Option.bind_eq_some_iff.1 h
    obtain ⟨id, hid, h⟩ := Option.bind_eq_some_iff.1 h
    cases h
    exact Nat.not_le_of_lt (Environment.lt_firstFreeId dotFree hid) high
  · obtain ⟨⟨owner, m⟩, -, h⟩ := Option.bind_eq_some_iff.1 h
    obtain ⟨id, -, h⟩ := Option.bind_eq_some_iff.1 h
    cases h
    cases container

/-- What a name refers to is a declaration in the tree, or is in the environment. -/
theorem Lexical.Refers.cases {e : Environment} {t x : Node} {own : Node → Symbol} {name : String}
    {v : Symbol} (h : Refers e t own x name (some v)) :
    (∃ d, binding? t x name = some d ∧ v = own d) ∨ OfEnvironment e v := by
  cases hb : binding? t x name with
  | some d => exact .inl ⟨d, rfl, Option.some.inj (h.bound d hb)⟩
  | none =>
    cases hm : e.global? name with
    | none => cases h.unknown hb hm
    | some m =>
      obtain ⟨id, hid, hv⟩ := h.global hb m hm
      cases hv
      refine .inr (.inl ⟨name, m.typeExpr, ?_⟩)
      rw [Environment.globalSymbol?, hm, Option.bind_eq_bind, Option.bind_some, hid]
      rfl

/-- A name that refers to a declaration stands in all the scopes around the declaration. -/
theorem mem_scope_of_resolve {source : String} {read : Node}
    (h : Source.parseUnit source = .ok read) (next : Nat) {e : Environment}
    {f : Findings} (hf : e.resolve (read.number next).1 = .ok f)
    {x d p : Node} (hx : x ∈ (read.number next).1.preorder) (hxk : x.kind = .identifier)
    (hd : d ∈ (read.number next).1.preorder) (hdk : d.kind.isNoted) {v : Symbol}
    (hxv : (f.of x.id).symbol = some v) (hdv : (f.of d.id).declared = some v)
    (hp : p ∈ (read.number next).1.preorder) (hpk : p.kind.isScope) (hdp : d ∈ p.preorder)
    (own : d = p → d.kind.declaresWithin) : x ∈ p.preorder := by
  have regular := regular_number h next
  have declares : d.kind.declares := (Bool.and_eq_true_iff.1 hdk).1
  have noted := (right_of_resolve regular hf hd (Bool.or_eq_true_iff.2 (.inr hdk))).declared hdk
  obtain rfl : v = symbolOf e (read.number next).1 d := Option.some.inj (hdv.symm.trans noted)
  obtain ⟨name, hname⟩ := regular.exists_name hx (.inr hxk)
  have refers := refers_referent e (read.number next).1 (symbolOf e (read.number next).1) x hname
  rw [← (right_of_resolve regular hf hx (by rw [hxk]; rfl)).symbol hxk, hxv] at refers
  rcases refers.cases with ⟨d', hb, same⟩ | global
  · rw [binding?_eq_find?] at hb
    have seen := List.mem_of_find?_eq_some hb
    obtain ⟨inside, declares'⟩ := mem_visible seen
    obtain rfl := symbolOf_inj regular.numbered (mem_order.2 ⟨hd, declares⟩)
      (mem_order.2 ⟨inside, declares'⟩) (congrArg Symbol.id same)
    exact mem_scope_of_visible regular.numbered hx seen hp hpk hdp own
  · refine absurd global (not_ofEnvironment rfl (Nat.le_add_right _ _) ?_)
    exact Source.dotFree_parseUnit h next hd (regular.name_symbolOf hd declares)

/-- The findings note `own d` at every declaration `d`, and all that they say a node refers to is
in the environment or is such a symbol. No two declarations share one, and none is in the
environment. -/
structure Distinct (e : Environment) (t : Node) (own : Node → Symbol) (f : Findings) : Prop where
  noted : ∀ d ∈ t.preorder, d.kind.isNoted → (f.of d.id).declared = some (own d)
  referred : ∀ x ∈ t.preorder, ∀ v, (f.of x.id).symbol = some v →
    OfEnvironment e v ∨ ∃ d ∈ t.preorder, d.kind.declares ∧ v = own d
  declarations : ∀ d ∈ t.preorder, d.kind.declares → ∀ d' ∈ t.preorder, d'.kind.declares →
    own d = own d' → d = d'
  environment : ∀ d ∈ t.preorder, d.kind.declares → ¬OfEnvironment e (own d)

/-- **Distinct entities have distinct symbols.** In one run over a text that parses, whatever the
environment, no symbol stands for two declarations, or for a declaration and a global or member. -/
theorem symbols_distinct {source : String} {read : Node} (h : Source.parseUnit source = .ok read)
    (next : Nat) {e : Environment} :
    ∃ f, e.resolve (read.number next).1 = .ok f ∧
      Distinct e (read.number next).1 (symbolOf e (read.number next).1) f := by
  have regular := regular_number h next
  obtain ⟨f, hf⟩ := regular.laid.resolves e
  have right {x : Node} (hx : x ∈ (read.number next).1.preorder) (hk : x.kind.isTold) :=
    right_of_resolve regular hf hx hk
  refine ⟨f, hf, fun d hd hk => ?_, fun x hx v hv => ?_, fun d hd hk d' hd' hk' he => ?_,
    fun d hd hk => ?_⟩
  · exact (right hd (Bool.or_eq_true_iff.2 (.inr hk))).declared hk
  · obtain ⟨y, hy, hid, known⟩ := (sound_of_findings hf x.id).symbol v hv
    obtain rfl : y = x := regular.numbered.eq_of_id hy hx hid
    refine known.elim .inl fun ⟨_, hk⟩ => ?_
    obtain ⟨name, hname⟩ := regular.exists_name hy (.inr hk)
    have refers := refers_referent e (read.number next).1 (symbolOf e (read.number next).1) y hname
    rw [← (right hy (by rw [hk]; rfl)).symbol hk, hv] at refers
    refine refers.cases.symm.imp_right fun ⟨d, hd, own⟩ => ?_
    rw [binding?_eq_find?] at hd
    obtain ⟨inside, declares⟩ := mem_visible (List.mem_of_find?_eq_some hd)
    exact ⟨d, inside, declares, own⟩
  · exact symbolOf_inj regular.numbered (mem_order.2 ⟨hd, hk⟩) (mem_order.2 ⟨hd', hk'⟩)
      (congrArg Symbol.id he)
  · refine not_ofEnvironment rfl (Nat.le_add_right _ _) ?_
    exact Source.dotFree_parseUnit h next hd (regular.name_symbolOf hd hk)

/-- A global that is named like a member, and one that is said to be a local. -/
def overlapping : Environment := .ofEntries
  [("T.M", ⟨.property, "int", .either, none⟩), ("g", ⟨.localVar, "T", .either, none⟩)]
  [("T", [("M", ⟨.field, "int", .either, none⟩)])]

def overlapped : String := "template A(T x) \x7b var y = x.M + g.M; foreach (var g in x) g; \x7d"

theorem symbols_distinct_overlapped : ∃ read, Source.parseUnit overlapped = .ok read ∧
    ∃ f, overlapping.resolve (read.number 0).1 = .ok f ∧
      Distinct overlapping (read.number 0).1 (symbolOf overlapping (read.number 0).1) f := by
  cases hp : Source.parseUnit overlapped with
  | error d =>
    have parses : (Source.parseUnit overlapped).isOk = true := by decide +kernel
    rw [hp] at parses
    cases parses
  | ok read =>
    exact ⟨read, rfl, symbols_distinct hp 0⟩

/-- The member has the number of the template. -/
example : (overlapping.memberSymbol? (.named "T") "M").map (·.1.id) =
    some overlapping.firstFreeId := by
  decide +kernel

end Stencil
