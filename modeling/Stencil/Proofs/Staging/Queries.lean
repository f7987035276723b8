import Stencil.Proofs.Staging.Marking

/-!
# Questions about a marked text

A partition is asked for the stage of a range, for all cells up to a bound, and for the marked
ranges one after another. Each answer looks at few cells, and says what the stages of the single
offsets say: that one cell holds a range tells that the offsets in it agree, because neighbours
differ, and for the same reason the walk over the marked ranges never has two cells to join.

Results:

* `IsNormal.classify_eq`, `IsNormal.classify_conflict` – the stage of a range;
* `IsNormal.covering` – the cells up to a bound are the row of the stages below it;
* `Walk.ranges_eq` – a walk over cells of different neighbours yields the marked ones;
* `queries_pointwise` – the answers after any marks.
-/
namespace Stencil

namespace Partition

/-! ## Where the stage changes -/

section

variable {lo hi o bound : Nat} {c : Cell} {cells : List Cell} {s t : Stage}

/-- Offsets have one stage. -/
theorem Tiles.shows_unique (h : Tiles lo hi cells) (hs : Shows cells o s) (ht : Shows cells o t) :
    s = t := by
  induction cells generalizing lo with
  | nil => obtain ⟨c, hc, -⟩ := hs; cases hc
  | cons c rest ih =>
    by_cases hin : o < c.stop
    · have hlo := (h.le_of_shows hs).1
      exact ((h.shows_first hlo hin).1 hs).trans ((h.shows_first hlo hin).1 ht).symm
    · have hout : c.stop ≤ o := Nat.le_of_not_lt hin
      exact ih h.2.2 ((shows_rest hout).1 hs) ((shows_rest hout).1 ht)

/-- Where a cell stops, so does its stage. -/
theorem Tiles.not_shows_stop (h : Tiles lo hi cells) (hd : Differ cells) (hc : c ∈ cells) :
    ¬Shows cells c.stop c.stage := by
  induction cells generalizing lo with
  | nil => cases hc
  | cons d rest ih =>
    obtain ⟨-, -, hrest⟩ := h
    intro hs
    cases hc with
    | head =>
      have hs := (shows_rest (Nat.le_refl _)).1 hs
      cases rest with
      | nil => obtain ⟨e, he, -⟩ := hs; cases he
      | cons e rest =>
        have := (hrest.shows_first (Nat.le_refl _) hrest.2.1).1 hs
        exact (List.isChain_cons_cons.1 hd).1 this
    | tail _ hc =>
      have := hrest.bounds hc
      exact ih hrest hd.tail hc ((shows_rest (by omega)).1 hs)

/-- Right before a cell the stage is another one. -/
theorem Tiles.not_shows_before (h : Tiles lo hi cells) (hd : Differ cells) (hc : c ∈ cells)
    (ho : o + 1 = c.start) : ¬Shows cells o c.stage := by
  induction cells generalizing lo with
  | nil => cases hc
  | cons d rest ih =>
    intro hs
    have hlo := (h.le_of_shows hs).1
    cases hc with
    | head =>
      have := h.1
      omega
    | tail _ hc =>
      have hrest := h.2.2
      have bounds := hrest.bounds hc
      by_cases hin : o < d.stop
      · -- the cell is the next one after `d`
        have stage := (h.shows_first hlo hin).1 hs
        cases rest with
        | nil => cases hc
        | cons e rest =>
          cases hc with
          | head => exact (List.isChain_cons_cons.1 hd).1 stage.symm
          | tail _ hc =>
            have := hrest.2.2.bounds hc
            have := hrest.2.1
            omega
      · exact ih hrest hd.tail hc ((shows_rest (by omega)).1 hs)

/-- The cells of a row stand in order. -/
theorem Tiles.pairwise (h : Tiles lo hi cells) : cells.Pairwise fun c d => c.stop ≤ d.start := by
  induction cells generalizing lo with
  | nil => exact .nil
  | cons c rest ih => exact .cons (fun d hd => (h.2.2.bounds hd).1) (ih h.2.2)

/-! ## Cutting a row off -/

/-- The part of a row below `bound`. -/
def clip (bound : Nat) (cells : List Cell) : List Cell :=
  (cells.filter (·.start < bound)).map fun c => { c with stop := min c.stop bound }

theorem clip_cons (hc : c.start < bound) :
    clip bound (c :: cells) = { c with stop := min c.stop bound } :: clip bound cells := by
  rw [clip, List.filter_cons_of_pos (by simpa using hc), List.map_cons, clip]

/-- Nothing is left of a row that starts at the bound or after it. -/
theorem Tiles.clip_eq_nil (h : Tiles lo hi cells) (hlo : bound ≤ lo) : clip bound cells = [] := by
  rw [clip, List.filter_eq_nil_iff.2, List.map_nil]
  intro c hc
  have := h.bounds hc
  simp only [decide_eq_true_eq]
  omega

theorem Tiles.clip (h : Tiles lo hi cells) (hlo : lo ≤ bound) (hhi : bound ≤ hi) :
    Tiles lo bound (clip bound cells) := by
  induction cells generalizing lo with
  | nil =>
    have : lo = hi := h
    have : lo = bound := by omega
    exact this
  | cons c rest ih =>
    have hstart := h.1
    have hlt := h.2.1
    have hrest := h.2.2
    by_cases hc : c.start < bound
    · rw [clip_cons hc]
      by_cases hstop : c.stop ≤ bound
      · rw [Nat.min_eq_left hstop]
        exact ⟨hstart, hlt, ih hrest hstop⟩
      · have hbound : bound ≤ c.stop := by omega
        rw [hrest.clip_eq_nil hbound, Nat.min_eq_right hbound]
        exact ⟨hstart, hstart ▸ hc, rfl⟩
    · have hbound : bound ≤ lo := by omega
      rw [h.clip_eq_nil hbound]
      exact Nat.le_antisymm hlo hbound

theorem shows_clip : Shows (clip bound cells) o s ↔ o < bound ∧ Shows cells o s := by
  constructor
  · rintro ⟨_, hmem, hle, hlt, hs⟩
    obtain ⟨c, hc, rfl⟩ := List.mem_map.1 hmem
    have hstop : o < min c.stop bound := hlt
    exact ⟨by omega, c, (List.mem_filter.1 hc).1, hle, by omega, hs⟩
  · rintro ⟨hbound, c, hc, hle, hlt, hs⟩
    have kept : c ∈ cells.filter (·.start < bound) :=
      List.mem_filter.2 ⟨hc, decide_eq_true (Nat.lt_of_le_of_lt hle hbound)⟩
    exact ⟨_, List.mem_map_of_mem kept, hle, Nat.lt_min.2 ⟨hlt, hbound⟩, hs⟩

theorem Differ.clip (hd : Differ cells) (h : Tiles lo hi cells) (bound : Nat) :
    Differ (clip bound cells) := by
  induction cells generalizing lo with
  | nil => exact .nil
  | cons c rest ih =>
    by_cases hc : c.start < bound
    · rw [clip_cons hc]
      refine List.isChain_cons.2 ⟨fun d hmem => ?_, ih hd.tail h.2.2⟩
      cases rest with
      | nil => cases hmem
      | cons e rest =>
        by_cases he : e.start < bound
        · rw [clip_cons he] at hmem
          cases hmem
          exact (List.isChain_cons_cons.1 hd).1
        · have := h.2.2.1
          rw [h.2.2.clip_eq_nil (by omega)] at hmem
          cases hmem
    · rw [h.clip_eq_nil (by have := h.1; omega)]
      exact .nil

end

/-! ## Partitions in normal form -/

section

variable {p : Partition} {lo hi o bound : Nat} {s : Stage}

/-- The cell that a range is looked up in, and what it tells of the offsets in the range. -/
theorem IsNormal.exists_classify (h : p.IsNormal) (hlt : lo < hi) (hhi : hi ≤ limit) :
    ∃ c ∈ p.cells, Shows p.cells lo c.stage ∧
      p.classify lo hi = (if hi ≤ c.stop then c.stage else .conflict) ∧
      (∀ o, lo ≤ o → o < c.stop → Shows p.cells o c.stage) ∧ lo < c.stop := by
  obtain ⟨c, hmem, hc, hle, hstop⟩ := h.exists_containing? lo
  have hstop := hstop (by omega)
  refine ⟨c, hmem, ⟨c, hmem, hle, hstop, rfl⟩, ?_, fun o ho hin => ?_, hstop⟩
  · rw [Partition.classify, hc]
  · exact ⟨c, hmem, by omega, hin, rfl⟩

/-- A range whose offsets all have one stage has that stage. -/
theorem IsNormal.classify_eq (h : p.IsNormal) (hlt : lo < hi) (hhi : hi ≤ limit)
    (hs : ∀ o, lo ≤ o → o < hi → Shows p.cells o s) : p.classify lo hi = s := by
  obtain ⟨c, hmem, hfirst, hclass, -, hstop⟩ := h.exists_classify hlt hhi
  have stage := h.tiles.shows_unique hfirst (hs lo (Nat.le_refl _) hlt)
  have fits : hi ≤ c.stop := by
    by_contra hout
    have next := hs c.stop (by omega) (by omega)
    rw [← stage] at next
    exact h.tiles.not_shows_stop h.differ hmem next
  rw [hclass, if_pos fits, stage]

/-- A range whose offsets have several stages is in conflict. -/
theorem IsNormal.classify_conflict (h : p.IsNormal) (hlt : lo < hi) (hhi : hi ≤ limit)
    (hs : ¬∃ s, ∀ o, lo ≤ o → o < hi → Shows p.cells o s) : p.classify lo hi = .conflict := by
  obtain ⟨c, -, -, hclass, inside, -⟩ := h.exists_classify hlt hhi
  rw [hclass, if_neg]
  exact fun fits => hs ⟨c.stage, fun o ho hin => inside o ho (by omega)⟩

/-- The cells up to a bound are a row of different neighbours that shows the stages below it. -/
theorem IsNormal.covering (h : p.IsNormal) (hb : bound ≤ limit) :
    Tiles 0 bound (p.covering bound) ∧ Differ (p.covering bound) ∧
      ∀ o s, Shows (p.covering bound) o s ↔ o < bound ∧ Shows p.cells o s :=
  ⟨h.tiles.clip (Nat.zero_le _) hb, h.differ.clip h.tiles bound, fun _ _ => shows_clip⟩

/-- Up to the limit nothing is cut off. -/
theorem IsNormal.covering_limit (h : p.IsNormal) : p.covering limit = p.cells := by
  obtain ⟨tiles, differ, shows⟩ := h.covering (Nat.le_refl limit)
  refine tiles.ext h.tiles differ h.differ fun o s _ => ?_
  rw [shows]
  exact ⟨And.right, fun hs => ⟨(h.tiles.le_of_shows hs).2, hs⟩⟩

end

end Partition

/-! ## Walking over the marked ranges -/

namespace Walk

open Stencil.Partition

/-- The cells that the walk has to tell of, the pending range in front. -/
def remaining (w : Walk) : List Cell := w.pending.toList ++ w.rest

/-- The pending range is marked, and no two neighbours among the remaining cells could be joined. -/
structure IsPlain (w : Walk) : Prop where
  marked : ∀ r ∈ w.pending, r.stage ≠ .either
  differ : Differ w.remaining

/-- The remaining cells that are marked. -/
def told (w : Walk) : List Cell := w.remaining.filter (·.stage != .either)

theorem told_some {r : Cell} (hr : r.stage ≠ .either) (rest : List Cell) :
    told ⟨rest, some r⟩ = r :: told ⟨rest, none⟩ :=
  List.filter_cons_of_pos (by simpa using hr)

theorem told_skip {c : Cell} (hc : c.stage = .either) (rest : List Cell) :
    told ⟨c :: rest, none⟩ = told ⟨rest, none⟩ :=
  List.filter_cons_of_neg (by simpa using hc)

/-- A step yields the first of the remaining cells that is marked. -/
theorem step_cases {pending : Option Cell} {rest : List Cell} (h : IsPlain ⟨rest, pending⟩) :
    (step pending rest = none ∧ told ⟨rest, pending⟩ = []) ∨
      ∃ r w, step pending rest = some (r, w) ∧ w.IsPlain ∧ told ⟨rest, pending⟩ = r :: w.told := by
  obtain ⟨marked, differ⟩ := h
  induction rest generalizing pending with
  | nil =>
    cases pending with
    | none => exact .inl ⟨rfl, rfl⟩
    | some r => exact .inr ⟨r, ⟨[], none⟩, rfl, ⟨nofun, .nil⟩, told_some (marked r rfl) []⟩
  | cons c rest ih =>
    cases pending with
    | none =>
      rw [step]
      by_cases hc : c.stage = .either
      · rw [if_pos hc, told_skip hc]
        exact ih nofun differ.tail
      · rw [if_neg hc]
        exact ih (by rintro r ⟨⟩; exact hc) differ
    | some r =>
      refine .inr ⟨r, ?_⟩
      have other : r.stage ≠ c.stage := (List.isChain_cons_cons.1 differ).1
      rw [step, told_some (marked r rfl)]
      by_cases hc : c.stage = .either
      · rw [if_pos hc, told_skip hc]
        exact ⟨⟨rest, none⟩, rfl, ⟨nofun, differ.tail.tail⟩, rfl⟩
      · -- the pending range is never continued: its neighbour has another stage
        rw [if_neg hc, if_neg fun same => other same.1]
        exact ⟨⟨rest, some c⟩, rfl, ⟨by rintro r ⟨⟩; exact hc, differ.tail⟩, rfl⟩

/-- A walk yields the remaining cells that are marked. -/
theorem ranges_eq {w : Walk} (h : w.IsPlain) : w.ranges = w.told := by
  rw [ranges]
  rcases step_cases h with ⟨ends, nothing⟩ | ⟨r, w', found, plain, rest⟩
  · split
    · exact nothing.symm
    · next found => cases ends.symm.trans found
  · split
    · next ends => cases found.symm.trans ends
    · next found' =>
      cases found.symm.trans found'
      have := size_step found
      rw [ranges_eq plain, rest]
termination_by w.size

end Walk

namespace Partition

theorem IsNormal.marked_eq {p : Partition} (h : p.IsNormal) :
    p.marked = p.cells.filter (·.stage != .either) :=
  Walk.ranges_eq ⟨nofun, h.differ⟩

/-! ## The answers after any marks -/

/-- The range is marked, its offsets have one stage, and no neighbouring offset has it too. -/
structure IsMaximal (marks : List Mark) (r : Cell) : Prop where
  lt : r.start < r.stop
  le : r.stop ≤ limit
  marked : r.stage ≠ .either
  inside : ∀ o, r.start ≤ o → o < r.stop → IsHighest marks o r.stage
  before : ∀ o, o + 1 = r.start → ¬IsHighest marks o r.stage
  after : r.stop < limit → ¬IsHighest marks r.stop r.stage

variable {marks : List Mark} {r : Cell}

theorem isMaximal_of_mem (hr : r ∈ (markAll marks).cells) (hs : r.stage ≠ .either) :
    IsMaximal marks r := by
  have normal := isNormal_markAll marks
  have bounds := normal.tiles.bounds hr
  have shown (o : Nat) (ho : o < limit) :
      Shows (markAll marks).cells o r.stage ↔ IsHighest marks o r.stage := by
    rw [shows_markAll]
    exact and_iff_right ho
  refine ⟨bounds.2.1, bounds.2.2, hs, fun o hle hlt => ?_, fun o ho => ?_, fun hlt => ?_⟩
  · exact (shown o (by omega)).1 ⟨r, hr, hle, hlt, rfl⟩
  · rw [← shown o (by omega)]
    exact normal.tiles.not_shows_before normal.differ hr ho
  · rw [← shown r.stop hlt]
    exact normal.tiles.not_shows_stop normal.differ hr

/-- A maximal range is a cell: it starts and stops where the cell around its first offset does. -/
theorem IsMaximal.mem (h : IsMaximal marks r) : r ∈ (markAll marks).cells := by
  have normal := isNormal_markAll marks
  have hlt := h.lt
  have hle := h.le
  obtain ⟨s, c, hc, hstart, hstop, rfl⟩ :=
    normal.tiles.exists_shows (Nat.zero_le r.start) (by omega)
  have highest (o : Nat) (hlo : c.start ≤ o) (hhi : o < c.stop) : IsHighest marks o c.stage :=
    ((shows_markAll marks o c.stage).1 ⟨c, hc, hlo, hhi, rfl⟩).2
  have stage : c.stage = r.stage :=
    (highest r.start hstart hstop).unique (h.inside r.start (Nat.le_refl _) hlt)
  rw [stage] at highest
  have bounds := normal.tiles.bounds hc
  have starts : c.start = r.start := by
    by_contra hne
    exact h.before (r.start - 1) (by omega) (highest _ (by omega) (by omega))
  have stops : c.stop = r.stop := by
    rcases Nat.lt_trichotomy c.stop r.stop with hshort | heq | hlong
    · refine absurd ((shows_markAll marks c.stop c.stage).2 ⟨by omega, ?_⟩)
        (normal.tiles.not_shows_stop normal.differ hc)
      rw [stage]
      exact h.inside c.stop (by omega) hshort
    · exact heq
    · exact absurd (highest r.stop (by omega) hlong) (h.after (by omega))
  obtain ⟨start, stop, t⟩ := c
  obtain ⟨start', stop', t'⟩ := r
  cases starts
  cases stops
  cases stage
  exact hc

/-- After any marks, also empty or reversed ones, a range that is not empty is classified by the
stage that its offsets have in common, and as a conflict if they have none in common; the cells up
to a bound follow one another from zero to it, differ from their neighbours, and show the stages of
the offsets; and the marked ranges are the maximal ranges of one stage, in order, which are the
cells up to the limit without those that nobody marked. -/
theorem queries_pointwise (marks : List Mark) :
    (∀ lo hi, lo < hi → hi ≤ limit →
      (∀ s, (∀ o, lo ≤ o → o < hi → IsHighest marks o s) → (markAll marks).classify lo hi = s) ∧
      ((¬∃ s, ∀ o, lo ≤ o → o < hi → IsHighest marks o s) →
        (markAll marks).classify lo hi = .conflict)) ∧
    (∀ bound ≤ limit, Tiles 0 bound ((markAll marks).covering bound) ∧
      Differ ((markAll marks).covering bound) ∧
      (∀ o < bound, ∀ s, Shows ((markAll marks).covering bound) o s ↔ IsHighest marks o s)) ∧
    (markAll marks).covering 0 = [] ∧
    (markAll marks).marked =
      ((markAll marks).covering limit).filter (·.stage != .either) ∧
    (∀ r, r ∈ (markAll marks).marked ↔ IsMaximal marks r) ∧
    (markAll marks).marked.Pairwise (fun r r' => r.stop ≤ r'.start) := by
  have normal := isNormal_markAll marks
  have shown {o : Nat} {s : Stage} (ho : o < limit) :
      Shows (markAll marks).cells o s ↔ IsHighest marks o s := by
    rw [shows_markAll]
    exact and_iff_right ho
  have agree {lo hi : Nat} (hhi : hi ≤ limit) (s : Stage) :
      (∀ o, lo ≤ o → o < hi → Shows (markAll marks).cells o s) ↔
        ∀ o, lo ≤ o → o < hi → IsHighest marks o s := by
    constructor
    · exact fun h o ho hin => (shown (by omega)).1 (h o ho hin)
    · exact fun h o ho hin => (shown (by omega)).2 (h o ho hin)
  refine ⟨fun lo hi hlt hhi => ⟨fun s hs => ?_, fun hs => ?_⟩, fun bound hb => ?_, ?_, ?_, ?_, ?_⟩
  · exact normal.classify_eq hlt hhi ((agree hhi s).2 hs)
  · refine normal.classify_conflict hlt hhi ?_
    simpa only [agree hhi] using hs
  · obtain ⟨tiles, differ, shows⟩ := normal.covering hb
    refine ⟨tiles, differ, fun o ho s => ?_⟩
    rw [shows, shown (by omega)]
    exact and_iff_right ho
  · exact normal.tiles.clip_eq_nil (Nat.le_refl 0)
  · rw [normal.marked_eq, normal.covering_limit]
  · intro r
    rw [normal.marked_eq, List.mem_filter]
    simp only [bne_iff_ne, ne_eq]
    exact ⟨fun hr => isMaximal_of_mem hr.1 hr.2, fun hr => ⟨hr.mem, hr.marked⟩⟩
  · rw [normal.marked_eq]
    exact normal.tiles.pairwise.filter _

/-- The lower mark shows only where the higher one does not cover it. -/
example :
    let p := markAll [⟨0, 10, .generationTime⟩, ⟨5, 15, .generated⟩]
    p.covering 20 = [⟨0, 10, .generationTime⟩, ⟨10, 15, .generated⟩, ⟨15, 20, .either⟩] ∧
      p.classify 8 10 = .generationTime ∧ p.classify 8 12 = .conflict := by
  decide

end Partition

end Stencil
