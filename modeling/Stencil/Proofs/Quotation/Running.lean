import Stencil.Proofs.Quotation.Program

/-!
# Running straight programs

A program whose body is straight needs no more budget than its tree is high, and more makes no
difference. Nor does it make a difference to run the program as it was spelled again.

Results:

* `expansion_eq` – the run of a program spelled again, whatever the budgets;
* `knotted_of_exhausted` – such a run is exhausted only where a list contains itself;
* `expand_respelled` – programs that differ in spelling expand to the same tree.
-/
namespace Stencil.Quotation

open Expansion

/-- A program with a straight body. -/
structure RunsStraight (fence : Bool) (program : Node) : Prop where
  kind : program.kind = .template
  straight : ∀ body, program.nodeOfKind? .block = some body → Straight fence body

/-- The run of a program with a budget, started for a target and arguments. -/
def expansion (target : Target) (arguments : List (String × Datum)) (b : Nat) (program : Node) :
    EStateM.Result Stop Machine Node :=
  let (own, m) := Machine.initial.addContext target arguments
  expandIn own b program m

theorem expand_eq (target : Target) (arguments : List (String × Datum)) (program : Node) :
    expand target arguments program =
      match expansion target arguments (budgetFor program) program with
      | .ok n _ => .ok n
      | .error e _ => .error e := rfl

variable {own : Nat} {fence : Bool} {program program' : Node}

/-! ## Starting -/

mutual

theorem frames_load (m : Machine) : (d : Datum) → (m.load d).2.frames = m.frames
  | .null | .bool _ | .int _ | .float _ | .string _ => rfl
  | .list items => by
    rw [Machine.load]
    exact frames_loadAll m items

theorem frames_loadAll (m : Machine) : (ds : List Datum) → (m.loadAll ds).2.frames = m.frames
  | [] => by rw [Machine.loadAll]
  | d :: rest => by
    rw [Machine.loadAll]
    exact (frames_loadAll (m.load d).2 rest).trans (frames_load m d)

end

/-- A fresh machine holds no closures. -/
theorem closureless_addContext (target : Target) (arguments : List (String × Datum)) {m : Machine}
    (h : Machine.initial.addContext target arguments = (own, m)) :
    Closureless own m ∧ PlainArguments own m := by
  obtain ⟨hm, ha⟩ := agree_addContext target arguments h
  refine ⟨⟨hm.alike.plain, fun frame vars hv => ?_, hm.alike.owned⟩, ha⟩
  have none : m.frames = #[] := by
    cases h
    exact frames_loadAll _ _
  rw [none] at hv
  cases hv

/-- The parameters are bound to plain values, one after another. -/
theorem settled_bindParameters (frame : Nat) {ps ps' : List Node}
    (h : List.Forall₂ (fun p p' : Node => p'.nameOrEmpty = p.nameOrEmpty) ps ps') {m : Machine}
    (hm : Closureless own m) (ha : PlainArguments own m) :
    Settled own (fun _ => True) (ps.forM (bindParameter own [frame]) m) ∧
      ps'.forM (bindParameter own [frame]) m = ps.forM (bindParameter own [frame]) m := by
  induction h generalizing m with
  | nil => exact ⟨⟨trivial, hm⟩, rfl⟩
  | @cons p p' ps ps' hp _ ih =>
    obtain ⟨c, hc⟩ : ∃ c, m.contexts[own]? = some c :=
      ⟨_, Array.getElem?_eq_getElem hm.owned⟩
    change Settled own _ ((bindParameter own [frame] p >>= fun _ =>
        ps.forM (bindParameter own [frame])) m) ∧
      (bindParameter own [frame] p' >>= fun _ => ps'.forM (bindParameter own [frame])) m =
        (bindParameter own [frame] p >>= fun _ => ps.forM (bindParameter own [frame])) m
    rw [run_bind, run_bind, bindParameter_eq hc, bindParameter_eq hc, hp]
    cases hv : c.argument? p.nameOrEmpty with
    | none => exact ⟨nofun, rfl⟩
    | some v =>
      have plain : v.isPlain := ha c hc _ (mem_of_lookup hv)
      exact ih (hm.update plain frame p.nameOrEmpty) ha

/-! ## Running -/

section

variable (hr : RunsStraight fence program) (h : Respells fence program program')

include hr h

theorem names_parameters : List.Forall₂ (fun p p' : Node => p'.nameOrEmpty = p.nameOrEmpty)
    (program.nodes.filter (·.kind == .parameter))
    (program'.nodes.filter (·.kind == .parameter)) := by
  have same : List.Forall₂ (Respells fence) program.nodes program'.nodes :=
    h.forall₂_nodes fun p p' _ _ part => part.respells fun _ ho => by
      rw [hr.kind] at ho
      cases ho
  generalize program.nodes = ps, program'.nodes = ps' at same
  induction same with
  | nil => exact .nil
  | @cons p p' _ _ hp _ ih =>
    rw [List.filter_cons, List.filter_cons, hp.kind]
    split
    · exact .cons hp.nameOrEmpty ih
    · exact ih

/-- Their bodies settle. -/
theorem settled_body {b b' : Nat} (hb : program.height ≤ b) (hb' : program'.height ≤ b')
    (env : Scoping) : Settles own (fun v => v.isPlain)
      (match program.nodeOfKind? .block with
        | some body => exec own b env body >>= Flow.value
        | none => pure .null)
      (match program'.nodeOfKind? .block with
        | some body => exec own b' env body >>= Flow.value
        | none => pure .null) := by
  rcases h.nodeOfKind? .block rfl (by decide) with ⟨hn, hn'⟩ | ⟨n, n', hn, hn', again⟩
  · rw [hn, hn']
    exact .pure rfl
  · rw [hn, hn']
    have kind : n.kind = .block := by simpa using List.find?_some hn
    have := Node.height_lt_of_mem (Node.mem_of_nodeOfKind? hn)
    have := Node.height_lt_of_mem (Node.mem_of_nodeOfKind? hn')
    refine .bind ?_ fun flow hflow => settles_value hflow
    exact (settling (hr.straight n hn) n' b b' _ again (by omega) (by omega)).2
      (by rw [kind]; rfl)

/-- Runs of a straight program and of the program spelled again do the same, and settle. -/
theorem settled_interpret {b b' : Nat} (hb : program.height ≤ b) (hb' : program'.height ≤ b')
    {m : Machine} (hm : Closureless own m) (ha : PlainArguments own m) :
    Settled own (fun v => v.isPlain) (interpret own b program m) ∧
      interpret own b' program' m = interpret own b program m := by
  have opened : Closureless own m.openFrame := (settles_nestedIn [] m hm).1.2
  obtain ⟨bound, same⟩ := settled_bindParameters m.frames.size
    (names_parameters hr h) opened ha
  have open_ : nestedIn [] m = .ok [m.frames.size] m.openFrame := rfl
  unfold interpret
  rw [run_bind, run_bind, open_]
  dsimp only
  rw [run_bind, run_bind, same]
  cases hps : (program.nodes.filter (·.kind == .parameter)).forM
      (bindParameter own [m.frames.size]) m.openFrame with
  | ok u n =>
    rw [hps] at bound
    exact settled_body hr h hb hb' [m.frames.size] n bound.2
  | error e n =>
    rw [hps] at bound
    exact ⟨bound, rfl⟩

theorem settled_expandIn {b b' : Nat} (hb : program.height ≤ b) (hb' : program'.height ≤ b')
    {m : Machine} (hm : Closureless own m) (ha : PlainArguments own m) :
    (∀ n, expandIn own b program m = .error .exhausted n → Knotted n.lists) ∧
      expandIn own b' program' m = expandIn own b program m := by
  have entered : Closureless own (m.enter own).2 := ⟨hm.lists, hm.frames, hm.owned⟩
  obtain ⟨settled, same⟩ := settled_interpret hr h hb hb' entered ha
  have flat (v : Value) : Settles own (fun _ => True) (flattened v) (flattened v) := by
    cases v with
    | node n => exact .pure trivial
    | _ => exact .fail _
  have built : Settled own (fun _ => True)
      ((interpret own b program >>= flattened) (m.enter own).2) := by
    rw [run_bind]
    cases hi : interpret own b program (m.enter own).2 with
    | ok v n =>
      rw [hi] at settled
      exact (flat v n settled.2).1
    | error e n =>
      rw [hi] at settled
      exact settled
  refine ⟨fun n hn => ?_, ?_⟩
  · change ensuring (interpret own b program >>= flattened) (·.leave m.active.length)
      (m.enter own).2 = _ at hn
    unfold ensuring at hn
    split at hn
    · cases hn
    · next e k he =>
      cases hn
      rw [he] at built
      exact built rfl
  · change ensuring (interpret own b' program' >>= flattened) (·.leave m.active.length)
      (m.enter own).2 = ensuring (interpret own b program >>= flattened) (·.leave m.active.length)
      (m.enter own).2
    unfold ensuring
    rw [run_bind, run_bind, same]

variable (target : Target) (arguments : List (String × Datum))

/-- The program spelled again expands to the same, whatever the budgets. -/
theorem expansion_eq {b b' : Nat} (hb : program.height ≤ b) (hb' : program'.height ≤ b') :
    expansion target arguments b' program' = expansion target arguments b program := by
  obtain ⟨closureless, plain⟩ := closureless_addContext target arguments rfl
  exact (settled_expandIn hr h hb hb' closureless plain).2

/-- With a budget of its height, a program stops for want of budget only where a list contains
itself. -/
theorem knotted_of_exhausted {b : Nat} (hb : program.height ≤ b) {m : Machine}
    (hm : expansion target arguments b program = .error .exhausted m) : Knotted m.lists := by
  obtain ⟨closureless, plain⟩ := closureless_addContext target arguments rfl
  exact (settled_expandIn hr h hb (Nat.le_refl _) closureless plain).1 m hm

/-- Programs that are spelled differently expand to the same tree. -/
theorem expand_respelled : expand target arguments program' = expand target arguments program := by
  have enough (n : Node) : n.height ≤ budgetFor n :=
    Nat.le_trans n.height_le_size (Nat.le_add_left _ budget)
  rw [expand_eq, expand_eq, expansion_eq hr h target arguments (enough program) (enough program')]

end

end Stencil.Quotation
