import Stencil.Proofs.Quotation.Kept

/-!
# Pieces of generated code

What a run of a generator builds between two machines `m` and `n`: a tree that shadows nothing, and
whose variables were not in use at `m` around the scope in which it was built, and are in use at `n`
in that scope or inside it. The statements of one block, moreover, declare names in the scope
itself that were free there when they were made up, so statements built one after another never
declare the same name.

Results:

* `Settled.append` – the statements of a block come one after another;
* `Settled.block` – and make a block;
* `Piece.of_block` – also if the block dissolves into the one around it.
-/
namespace Stencil.Quotation

open Expansion

variable {own : Nat} {r r' : Reach}

/-! ## Names in use -/

/-- The name is in use in the current scope or around it. -/
def AroundIn (own : Nat) (m : Machine) (x : String) : Prop :=
  ∃ c, m.contexts[own]? = some c ∧ c.scopes.Around c.scope x

/-- The name is in use in the current scope or inside it. -/
def WithinIn (own : Nat) (m : Machine) (x : String) : Prop :=
  ∃ c, m.contexts[own]? = some c ∧ c.scopes.Within c.scope x

/-- The name is in use in the current scope itself. -/
def HereIn (own : Nat) (m : Machine) (x : String) : Prop :=
  ∃ c, m.contexts[own]? = some c ∧ x ∈ c.scopes.namesOf c.scope

section

variable {m n : Machine} {x : String}

theorem HereIn.around (h : HereIn own m x) : AroundIn own m x := by
  obtain ⟨c, hc, hx⟩ := h
  exact ⟨c, hc, .of_mem hx⟩

theorem HereIn.within (h : HereIn own m x) : WithinIn own m x := by
  obtain ⟨c, hc, hx⟩ := h
  exact ⟨c, hc, .of_mem hx⟩

theorem HereIn.onward (h : HereIn own m x) (ho : Onward own r m n) : HereIn own n x := by
  obtain ⟨c, hc, hx⟩ := h
  obtain ⟨c', hc', -, -, hs, hg⟩ := ho.context c hc
  exact ⟨c', hc', hs ▸ hg.names _ hx⟩

theorem AroundIn.onward (h : AroundIn own m x) (ho : Onward own r m n) : AroundIn own n x := by
  obtain ⟨c, hc, hx⟩ := h
  obtain ⟨c', hc', -, -, hs, hg⟩ := ho.context c hc
  exact ⟨c', hc', hs ▸ hx.grow hg⟩

theorem WithinIn.onward (h : WithinIn own m x) (ho : Onward own r m n) : WithinIn own n x := by
  obtain ⟨c, hc, hx⟩ := h
  obtain ⟨c', hc', -, -, hs, hg⟩ := ho.context c hc
  exact ⟨c', hc', hs ▸ hx.grow hg⟩

end

/-- The name was made up between `m` and `n` for the current scope. -/
structure New (own : Nat) (m n : Machine) (x : String) : Prop where
  around : ¬AroundIn own m x
  within : ¬WithinIn own m x
  here : HereIn own n x

theorem New.widen {m n m' n' : Machine} {x : String} (h : New own m n x)
    (hm : Onward own r m' m) (hn : Onward own r' n n') : New own m' n' x :=
  ⟨fun ha => h.around (ha.onward hm), fun hw => h.within (hw.onward hm), h.here.onward hn⟩

/-- What is built after a name was made up does not use it. -/
theorem HereIn.not_mem {m n : Machine} {x : String} {t : Node} (h : HereIn own m x)
    (ht : ∀ y ∈ t.variableNames, ¬AroundIn own m y ∧ WithinIn own n y) : x ∉ t.variableNames :=
  fun hx => (ht x hx).1 h.around

/-- A name that is made up is not used by what was built before. -/
theorem New.not_mem {k m n : Machine} {x : String} {t : Node} (h : New own m n x)
    (ht : ∀ y ∈ t.variableNames, ¬AroundIn own k y ∧ WithinIn own m y) : x ∉ t.variableNames :=
  fun hx => h.within (ht x hx).2

/-! ## Parts -/

/-- A flat tree, built between `m` and `n`, whose variables are its own. -/
structure Part (own : Nat) (m n : Machine) (t : Node) : Prop where
  kind : t.kind ≠ .localDeclaration
  unshadowed : t.Unshadowed
  fresh : ∀ x ∈ t.variableNames, ¬AroundIn own m x ∧ WithinIn own n x

section

variable {m n : Machine} {t : Node}

theorem Part.widen {m' n' : Machine} (h : Part own m n t) (hm : Onward own r m' m)
    (hn : Onward own r' n n') : Part own m' n' t :=
  ⟨h.kind, h.unshadowed, fun x hx => ⟨fun ha => (h.fresh x hx).1 (ha.onward hm),
    (h.fresh x hx).2.onward hn⟩⟩

theorem Part.of_scopeless (h : t.Scopeless) : Part own m n t :=
  ⟨h.ne_localDeclaration, h.unshadowed, by simp [h.variableNames]⟩

/-- A node that opens no scope is made of the parts below it. -/
theorem Part.of_nodes (hk : t.kind.isScoping = false)
    (h : ∀ c ∈ t.nodes, Part own m n c.flatten) : Part own m n t.flatten := by
  have hb : t.kind ≠ .block := by
    intro hb
    simp [hb, NodeKind.isScoping] at hk
  have below := Node.forall_nodes_flatten (P := Part own m n) hb h
  refine ⟨?_, ?_, ?_⟩
  · intro hl
    rw [Node.kind_flatten] at hl
    simp [hl, NodeKind.isScoping] at hk
  · exact .of_not_scoping (by rwa [Node.kind_flatten])
      fun c hc => ⟨(below c hc).unshadowed, (below c hc).kind⟩
  · rw [Node.variableNames_of_not_scoping (by rwa [Node.kind_flatten])]
    intro x hx
    obtain ⟨c, hc, hx⟩ := List.mem_flatMap.1 hx
    exact (below c hc).fresh x hx

end

/-! ## Statements of a block -/

/-- Flat statements, built between `m` and `n` in one scope, that may stand in one block. -/
structure Settled (own : Nat) (m n : Machine) (us : List Node) : Prop where
  unshadowed : ∀ u ∈ us, u.Unshadowed
  fresh : ∀ u ∈ us, ∀ x ∈ u.variableNames, ¬AroundIn own m x ∧ WithinIn own n x
  nodup : (us.flatMap Node.declares).Nodup
  /-- what they declare in the block was free there, and is in use now -/
  surface : ∀ x ∈ us.flatMap Node.declares, ¬WithinIn own m x ∧ HereIn own n x
  /-- what has the block as its scope is not declared again inside -/
  apart : ∀ u ∈ us, u.kind = .localDeclaration → ∀ x ∈ u.introduced, ∀ w ∈ us, x ∉ w.inner

namespace Settled

variable {m n k : Machine} {us vs : List Node} {u t : Node}

theorem nil : Settled own m n [] := ⟨by simp, by simp, by simp, by simp, by simp⟩

/-- A statement that declares nothing in the block. -/
theorem of_part (h : Part own m n u) (hd : u.declares = []) : Settled own m n [u] := by
  refine ⟨?_, ?_, ?_, ?_, ?_⟩
  · simpa using h.unshadowed
  · simpa using h.fresh
  · simp [hd]
  · simp [hd]
  · intro w hw hl
    obtain rfl := List.mem_singleton.1 hw
    exact absurd hl h.kind

/-- A declaration of variables of its own. -/
theorem of_localDeclaration (hk : t.kind = .localDeclaration) (hd : t.introduced.Nodup)
    (hn : ∀ x ∈ t.introduced, New own m n x)
    (hc : ∀ c ∈ t.nodes, c.kind ≠ .block ∧ Part own m n c.flatten ∧
      ∀ x ∈ t.introduced, x ∉ c.flatten.variableNames) : Settled own m n t.contents := by
  have hb : t.kind ≠ .block := by simp [hk]
  have hf : t.flatten.kind = .localDeclaration := by rw [Node.kind_flatten, hk]
  have introduced := Node.introduced_flatten hk fun c hm => (hc c hm).1
  have below := Node.forall_nodes_flatten
    (P := fun c => Part own m n c ∧ ∀ x ∈ t.introduced, x ∉ c.variableNames) hb
    fun c hm => (hc c hm).2
  have declares : t.flatten.declares = t.introduced := by
    rw [Node.declares_of_localDeclaration hf, introduced]
  rw [Node.contents_of_not_block hb]
  refine ⟨?_, ?_, ?_, ?_, ?_⟩
  · exact List.forall_mem_singleton.2
      (.of_localDeclaration hf fun c hm => ⟨(below c hm).1.unshadowed, (below c hm).1.kind⟩)
  · rw [List.forall_mem_singleton, Node.variableNames_eq, introduced]
    intro x hx
    rcases List.mem_append.1 hx with hx | hx
    · exact ⟨(hn x hx).around, (hn x hx).here.within⟩
    · obtain ⟨c, hm, hx⟩ := List.mem_flatMap.1 hx
      exact (below c hm).1.fresh x hx
  · simpa [declares] using hd
  · simpa [declares] using fun x hx => ⟨(hn x hx).within, (hn x hx).here⟩
  · intro w hw _ x hx w' hw' hi
    obtain rfl := List.mem_singleton.1 hw
    obtain rfl := List.mem_singleton.1 hw'
    rw [Node.inner, if_pos hf] at hi
    obtain ⟨c, hm, hi⟩ := List.mem_flatMap.1 hi
    exact (below c hm).2 x (introduced ▸ hx) hi

/-- A loop over a variable of its own. -/
theorem of_forEach {x : String} (hk : t.kind = .forEachStatement) (hx : t.name? = some x)
    (hn : New own m n x)
    (hc : ∀ c ∈ t.nodes, Part own m n c.flatten ∧ x ∉ c.flatten.variableNames) :
    Settled own m n t.contents := by
  have hb : t.kind ≠ .block := by simp [hk]
  have hf : t.flatten.kind = .forEachStatement := by rw [Node.kind_flatten, hk]
  have below := Node.forall_nodes_flatten
    (P := fun c => Part own m n c ∧ x ∉ c.variableNames) hb hc
  have introduced : t.flatten.introduced = [x] := by
    simp [Node.introduced, hk, Node.name?_flatten hb, hx]
  have declares : t.flatten.declares = [x] := by simp [Node.declares, Node.binds, hk, introduced]
  rw [Node.contents_of_not_block hb]
  refine ⟨?_, ?_, ?_, ?_, ?_⟩
  · refine List.forall_mem_singleton.2 (.of_forEach hf ?_ fun c hm =>
      ⟨(below c hm).1.unshadowed, (below c hm).1.kind⟩)
    simpa [introduced] using fun c hm => (below c hm).2
  · rw [List.forall_mem_singleton, Node.variableNames_eq, introduced]
    intro y hy
    rcases List.mem_append.1 hy with hy | hy
    · obtain rfl := List.mem_singleton.1 hy
      exact ⟨hn.around, hn.here.within⟩
    · obtain ⟨c, hm, hy⟩ := List.mem_flatMap.1 hy
      exact (below c hm).1.fresh y hy
  · simp [declares]
  · simpa [declares] using ⟨hn.within, hn.here⟩
  · intro w hw hl
    obtain rfl := List.mem_singleton.1 hw
    simp [hk] at hl

theorem of_scopeless (h : ∀ u ∈ us, u.Scopeless) : Settled own m n us := by
  have declares : us.flatMap Node.declares = [] :=
    List.flatMap_eq_nil_iff.2 fun u hu => Node.declares_of_not_scoping (h u hu).here
  refine ⟨fun u hu => (h u hu).unshadowed, fun u hu => ?_, ?_, ?_, fun u hu hl => ?_⟩
  · simp [(h u hu).variableNames]
  · simp [declares]
  · simp [declares]
  · exact absurd hl (h u hu).ne_localDeclaration

/-- Statements built one after another. -/
theorem append (h : Settled own m n us) (h' : Settled own n k vs) (hm : Onward own r m n)
    (hn : Onward own r' n k) : Settled own m k (us ++ vs) where
  unshadowed w hw := by
    rcases List.mem_append.1 hw with hw | hw
    · exact h.unshadowed w hw
    · exact h'.unshadowed w hw
  fresh w hw x hx := by
    rcases List.mem_append.1 hw with hw | hw
    · exact ⟨(h.fresh w hw x hx).1, (h.fresh w hw x hx).2.onward hn⟩
    · exact ⟨fun ha => (h'.fresh w hw x hx).1 (ha.onward hm), (h'.fresh w hw x hx).2⟩
  nodup := by
    rw [List.flatMap_append]
    refine h.nodup.append h'.nodup fun x hx hx' => ?_
    exact (h'.surface x hx').1 (h.surface x hx).2.within
  surface x hx := by
    rw [List.flatMap_append] at hx
    rcases List.mem_append.1 hx with hx | hx
    · exact ⟨(h.surface x hx).1, (h.surface x hx).2.onward hn⟩
    · exact ⟨fun hw => (h'.surface x hx).1 (hw.onward hm), (h'.surface x hx).2⟩
  apart w hw hl x hx w' hw' hi := by
    have declared {ws : List Node} (hmem : w ∈ ws) : x ∈ ws.flatMap Node.declares :=
      List.mem_flatMap.2 ⟨w, hmem, by rwa [Node.declares_of_localDeclaration hl]⟩
    have inside := Node.inner_subset w' hi
    rcases List.mem_append.1 hw with hw | hw <;> rcases List.mem_append.1 hw' with hw' | hw'
    · exact h.apart w hw hl x hx w' hw' hi
    -- what comes later avoids what is in use
    · exact (h'.fresh w' hw' x inside).1 (h.surface x (declared hw)).2.around
    -- what came earlier was in use when the name was made up
    · exact (h'.surface x (declared hw)).1 (h.fresh w' hw' x inside).2
    · exact h'.apart w hw hl x hx w' hw' hi

/-- The block of the statements. -/
theorem block (h : Settled own m n us) (hk : t.kind = .block) (ht : t.nodes = us) :
    Part own m n t := by
  subst ht
  refine ⟨by simp [hk], .of_block hk h.nodup h.apart h.unshadowed, fun x hx => ?_⟩
  rw [Node.variableNames_eq, Node.introduced, hk, List.nil_append] at hx
  obtain ⟨u, hu, hx⟩ := List.mem_flatMap.1 hx
  exact h.fresh u hu x hx

/-- What a `using` statement acquires is declared in the block around it. -/
theorem of_using {d b : Node} (hk : t.kind = .usingStatement) (hnodes : t.nodes = [d, b])
    (hd : d.kind = .localDeclaration) (h : Settled own m n d.contents)
    (hb : Part own m n b.flatten)
    (hx : ∀ x ∈ d.flatten.introduced, x ∉ b.flatten.variableNames) :
    Settled own m n t.contents := by
  have ht : t.kind ≠ .block := by simp [hk]
  have hfd : d.flatten.kind = .localDeclaration := by rw [Node.kind_flatten, hd]
  rw [Node.contents_of_not_block (by simp [hd])] at h
  have nodes : t.flatten.nodes = [d.flatten, b.flatten] := by
    rw [Node.nodes_flatten ht, hnodes]
    rfl
  have binds : t.flatten.binds = d.flatten.introduced := by
    simp [Node.binds, hk, nodes, hd, by simpa using hb.kind]
  have declares : t.flatten.declares = d.flatten.declares := by
    rw [Node.declares_of_localDeclaration hfd, ← binds]
    simp [Node.declares, hk]
  have introduced : t.flatten.introduced = [] := by simp [Node.introduced, hk]
  have inside := h.apart d.flatten List.mem_cons_self hfd
  rw [Node.contents_of_not_block ht]
  refine ⟨?_, ?_, ?_, ?_, ?_⟩
  · refine List.forall_mem_singleton.2 (Node.unshadowed_iff.2 ⟨⟨?_, ?_, ?_, ?_⟩, ?_⟩)
    · exact fun _ _ _ => .inr (by rw [Node.kind_flatten, hk])
    · intro hk'
      simp [hk] at hk'
    · simpa [binds, Node.declares_of_localDeclaration hfd] using h.nodup
    · rw [binds, nodes]
      intro x hi
      simp only [List.forall_mem_cons, List.not_mem_nil, false_implies, implies_true, and_true]
      exact ⟨inside x hi d.flatten List.mem_cons_self,
        fun hi' => hx x hi (Node.inner_subset b.flatten hi')⟩
    · rw [nodes]
      simpa using ⟨h.unshadowed d.flatten List.mem_cons_self, hb.unshadowed⟩
  · rw [List.forall_mem_singleton, Node.variableNames_eq, introduced, nodes, List.nil_append]
    intro x hi
    simp only [List.flatMap_cons, List.flatMap_nil, List.append_nil, List.mem_append] at hi
    exact hi.elim (h.fresh d.flatten List.mem_cons_self x) (hb.fresh x)
  · simpa [declares] using h.nodup
  · simpa [declares] using h.surface
  · intro w hw hl
    obtain rfl := List.mem_singleton.1 hw
    simp [hk] at hl

theorem widen {m' n' : Machine} (h : Settled own m n us) (hm : Onward own r m' m)
    (hn : Onward own r' n n') : Settled own m' n' us :=
  ⟨h.unshadowed, fun u hu x hx => ⟨fun ha => (h.fresh u hu x hx).1 (ha.onward hm),
    (h.fresh u hu x hx).2.onward hn⟩, h.nodup,
    fun x hx => ⟨fun hw => (h.surface x hx).1 (hw.onward hm), (h.surface x hx).2.onward hn⟩,
    h.apart⟩

end Settled

/-! ## Pieces -/

/-- A tree that may stand anywhere, and as a statement of the block that is being built. -/
structure Piece (own : Nat) (m n : Machine) (t : Node) : Prop where
  part : Part own m n t.flatten
  settled : Settled own m n t.contents

namespace Piece

variable {m n : Machine} {t : Node}

theorem widen {m' n' : Machine} (h : Piece own m n t) (hm : Onward own r m' m)
    (hn : Onward own r' n n') : Piece own m' n' t :=
  ⟨h.part.widen hm hn, h.settled.widen hm hn⟩

/-- A block: if it does not dissolve, it declares nothing in the block around it. -/
theorem of_block (hk : t.kind = .block) (h : Settled own m n (t.nodes.flatMap Node.contents)) :
    Piece own m n t := by
  have part : Part own m n t.flatten :=
    h.block (by rw [Node.kind_flatten, hk]) (Node.nodes_flatten_block hk)
  refine ⟨part, ?_⟩
  unfold Node.contents
  split
  · rwa [Node.nodes_flatten_block hk]
  · exact .of_part part (by simp [Node.declares, hk])

/-- A block that nobody asked to dissolve stays in the block around it. -/
theorem of_kept (hk : t.kind = .block) (hm : t.flatten.isInlined = false)
    (h : Part own m n t.flatten) : Piece own m n t := by
  refine ⟨h, ?_⟩
  rw [Node.contents, hm]
  exact .of_part h (by simp [Node.declares, hk])

theorem of_nodes (hk : t.kind.isScoping = false)
    (h : ∀ c ∈ t.nodes, Part own m n c.flatten) : Piece own m n t := by
  have hb : t.kind ≠ .block := by
    intro hb
    simp [hb, NodeKind.isScoping] at hk
  refine ⟨.of_nodes hk h, ?_⟩
  rw [Node.contents_of_not_block hb]
  exact .of_part (.of_nodes hk h) (Node.declares_of_not_scoping (by rwa [Node.kind_flatten]))

theorem of_scopeless (h : t.Scopeless) : Piece own m n t :=
  of_nodes h.here fun c hc => by
    rw [(h.child hc).flatten]
    exact .of_scopeless (h.child hc)

end Piece

end Stencil.Quotation
