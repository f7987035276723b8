import Stencil.Environment.Standard
import Stencil.Expansion.Interpreter
import Stencil.Proofs.Session.Accepted
import Stencil.Proofs.Session.Classified
import Stencil.Proofs.Source.Tiling

/-!
# Evaluating the stages on a given text

The stages are functions, so what a given text comes to can be computed. Two steps take longest and
are the same for every text: taking a string apart into characters, and sorting the tables of the
standard environment. Here both are done by a rewriting step instead.

Results:

* `Source.parseUnit_of_toList` – parsing starts from the characters of a text;
* `Environment.standard_eq` – the standard environment, with its entries in order;
* `exists_of_accepts`, `exists_of_classifies`, `exists_of_expandedText?` – what a text and its
  generators come to, from an evaluation.
-/
namespace Stencil

/-! ## Characters and entries -/

/-- The characters of a text that is put together from two. -/
theorem toList_append {s t : String} {cs ds : List Char} (hs : s.toList = cs)
    (ht : t.toList = ds) : (s ++ t).toList = cs ++ ds := by
  rw [String.toList_append, hs, ht]

namespace Source

/-- Parses the characters of a file. -/
def parseCharacters (cs : List Char) : Except SourceError Node := do
  let ls ← scan 0 cs
  let fuel := 2 * ls.length + 4
  let (ns, _) ← (templates fuel fuel).run ⟨ls, byteLength cs, 0⟩
  return ⟨0, .compilationUnit, ⟨0, byteLength cs⟩, [], Grammar.asNodes ns⟩

theorem parseUnit_of_toList {text : String} {cs : List Char} (h : text.toList = cs) :
    parseUnit text = parseCharacters cs := by
  subst h
  unfold parseUnit parseWith parseCharacters lexemes
  rw [utf8ByteSize_eq]
  cases scan 0 text.toList with
  | error e => rfl
  | ok ls =>
    simp only [bind, Except.bind, pure, Except.pure]
    cases (templates (2 * ls.length + 4) (2 * ls.length + 4)).run
      ⟨ls, byteLength text.toList, 0⟩ <;> rfl

end Source

namespace Environment

/-- The globals of the standard environment in the order of their names. -/
def listedGlobals : Table Member :=
  [("Console", ⟨.type, "Console", .generated, none⟩),
    ("Math", ⟨.type, "Math", .either, none⟩),
    ("meta", value "Meta" .generationTime)]

/-- The members of the standard environment in the order of their types and names. -/
def listedTypes : Table (Table Member) :=
  [("Console", [
      ("ReadLine", method "string" .generated),
      ("Write", method "void" .generated),
      ("WriteLine", method "void" .generated)]),
    ("List", [("Count", value "int" .either)]),
    ("Math", [
      ("Abs", method "int" .either),
      ("Max", method "int" .either),
      ("Min", method "int" .either)]),
    ("Meta", [
      ("Proceed", proceed .plain),
      ("ProceedAsync", proceed .awaitable),
      ("ProceedAsyncEnumerable", proceed .asyncSequence),
      ("ProceedAsyncEnumerator", proceed .asyncEnumerator),
      ("ProceedEnumerable", proceed .sequence),
      ("ProceedEnumerator", proceed .enumerator),
      ("Target", value "Target" .generationTime),
      ("This", value "dynamic" .generationTime)]),
    ("Method", [
      ("Name", value "string" .generationTime),
      ("ReturnType", value "string" .generationTime)]),
    ("Parameter", [
      ("Index", value "int" .generationTime),
      ("Name", value "string" .generationTime),
      ("Type", value "string" .generationTime),
      ("Value", value "dynamic" .generationTime)]),
    ("Target", [
      ("Method", value "Method" .generationTime),
      ("Parameters", value "List<Parameter>" .generationTime)]),
    ("string", [
      ("Length", value "int" .either),
      ("ToLower", method "string" .either),
      ("ToUpper", method "string" .either)])]

theorem tables_standard : standard.globals = listedGlobals ∧ standard.types = listedTypes := by
  decide +kernel

/-- The standard environment, with its entries in order. -/
def listed : Environment where
  globals := listedGlobals
  types := listedTypes
  sortedGlobals := tables_standard.1 ▸ standard.sortedGlobals
  sortedTypes := tables_standard.2 ▸ standard.sortedTypes
  sortedMembers := tables_standard.2 ▸ standard.sortedMembers

theorem standard_eq : standard = listed := Environment.ext tables_standard.1 tables_standard.2

end Environment

/-! ## Texts that compile -/

variable {env env' : Environment} {text : String} {cs : List Char}

/-- Whether what was parsed compiles without a report and `p` holds of it and of what it comes
to. -/
def accepts (env : Environment) (parsed : Except Source.SourceError Node)
    (p : Node → Compilation → Classification → FactStore → Bool) : Bool :=
  match parsed with
  | .error _ => false
  | .ok read => (Reserved.check (read.number 0).1).isEmpty &&
    match FactStore.empty.learn env (read.number 0).1 with
    | .error _ => false
    | .ok (annotated, store) =>
      match classify store env annotated with
      | .error _ => false
      | .ok c => c.diagnostics.isEmpty &&
        match quoteTemplates store c.tree with
        | g => g.diagnostics.isEmpty && p read g c store

theorem exists_of_accepts {p : Node → Compilation → Classification → FactStore → Bool}
    (he : env = env') (ht : text.toList = cs)
    (h : accepts env' (Source.parseCharacters cs) p) :
    ∃ read g c s, Source.parseUnit text = .ok read ∧ compile env text = .ok g ∧
      g.diagnostics = [] ∧ Session.classification.run (.start text env) = .ok (some c, s) ∧
      p read g c s.store := by
  subst he
  rw [← Source.parseUnit_of_toList ht] at h
  unfold accepts at h
  split at h
  · cases h
  next read hread =>
  simp only [Bool.and_eq_true, List.isEmpty_iff] at h
  obtain ⟨hcheck, h⟩ := h
  split at h
  · cases h
  next annotated store hlearn =>
  split at h
  · cases h
  next c hstage =>
  simp only [Bool.and_eq_true, List.isEmpty_iff] at h
  obtain ⟨silent, quiet, hp⟩ := h
  have ready : prepared env text = .ok (.ready annotated, store) := by
    simp only [prepared, hread, hcheck, hlearn, bind, Except.bind, pure, Except.pure]
  have classified := classification_eq env text
  simp only [ready, bind, Except.bind, pure, Except.pure, hstage] at classified
  cases hs : Session.classification.run (.start text env) with
  | error d => rw [hs] at classified; cases classified
  | ok r =>
    rw [hs] at classified
    simp only [Except.map, Except.ok.injEq, Prod.mk.injEq] at classified
    refine ⟨read, quoteTemplates store c.tree, c, r.2, hread, ?_, quiet, ?_, ?_⟩
    · rw [compile_eq, ready]
      simp [bind, Except.bind, pure, Except.pure, Session.generators, hstage, silent, quiet]
    · rw [← classified.1]
    · rw [classified.2]
      exact hp

/-- What a generator expands to, as text. -/
def expandedText? (target : Target) (arguments : List (String × Datum)) (g : Generator) :
    Option String :=
  (expand target arguments g.program).toOption.bind fun n => n.compact.toOption

theorem exists_of_expandedText? {target : Target} {arguments : List (String × Datum)}
    {g : Generator} {s : String} (h : expandedText? target arguments g = some s) :
    ∃ n, expand target arguments g.program = .ok n ∧ n.compact = .ok s := by
  obtain ⟨n, hn, hs⟩ := Option.bind_eq_some_iff.1 h
  exact ⟨n, eq_ok_of_toOption hn, eq_ok_of_toOption hs⟩

/-- Where one generator comes of a text, it comes of one template. -/
theorem exists_of_forall₂ {α β : Type} {R : α → β → Prop} {xs : List α} {ys : List β}
    (h : List.Forall₂ R xs ys) (one : xs.length = 1) : ∃ x y, xs = [x] ∧ ys = [y] ∧ R x y := by
  obtain ⟨x, rfl⟩ := List.length_eq_one_iff.1 one
  obtain ⟨y, rest, hr, hrest, rfl⟩ := List.forall₂_cons_left_iff.1 h
  cases hrest
  exact ⟨x, y, rfl, rfl, hr⟩

/-! ## Texts that are classified -/

/-- Whether what was parsed can be classified and `p` holds of it, the facts and the
classification. -/
def classifies (env : Environment) (parsed : Except Source.SourceError Node)
    (p : Node → FactStore → Classification → Bool) : Bool :=
  match parsed with
  | .error _ => false
  | .ok read =>
    match FactStore.empty.learn env (read.number 0).1 with
    | .error _ => false
    | .ok (annotated, store) =>
      match classify store env annotated with
      | .error _ => false
      | .ok c => p read store c

theorem exists_of_classifies {p : Node → FactStore → Classification → Bool}
    (he : env = env') (ht : text.toList = cs)
    (h : classifies env' (Source.parseCharacters cs) p) :
    ∃ read annotated store c, Source.parseUnit text = .ok read ∧
      FactStore.empty.learn env (read.number 0).1 = .ok (annotated, store) ∧
      classify store env annotated = .ok c ∧ p read store c := by
  subst he
  rw [← Source.parseUnit_of_toList ht] at h
  unfold classifies at h
  split at h
  · cases h
  next read hread =>
  split at h
  · cases h
  next annotated store hlearn =>
  split at h
  · cases h
  next c hc => exact ⟨read, annotated, store, c, hread, hlearn, hc, h⟩

end Stencil
