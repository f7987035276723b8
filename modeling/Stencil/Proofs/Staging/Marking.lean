import Mathlib.Data.List.Chain
import Stencil.Partition

/-!
# What marks make of a text

After any marks, in any order, the cells of a partition follow one another without gaps, neighbours
have different stages, and every offset has the highest stage that a mark around it asks for. The
marks say all there is to say: only one partition has these properties, so neither the order of
marks nor their repetition can be seen.

Results:

* `IsNormal.mark` – a mark keeps the normal form, and raises the stage of the offsets in its range
  only;
* `IsNormal.ext` – a partition in normal form is told by the stages of the offsets;
* `markAll_partition` – the law of marks.
-/
namespace Stencil.Partition

/-! ## Rows of cells -/

/-- The cells follow one another from `lo` up to `hi`, and none is empty. -/
def Tiles : Nat → Nat → List Cell → Prop
  | lo, hi, [] => lo = hi
  | lo, hi, c :: rest => c.start = lo ∧ lo < c.stop ∧ Tiles c.stop hi rest

/-- Some cell has the offset and the stage. -/
def Shows (cells : List Cell) (o : Nat) (s : Stage) : Prop :=
  ∃ c ∈ cells, c.start ≤ o ∧ o < c.stop ∧ c.stage = s

/-- Neighbours have different stages. -/
def Differ (cells : List Cell) : Prop := cells.IsChain fun c d => c.stage ≠ d.stage

section

variable {lo hi o : Nat} {c d : Cell} {cells rest : List Cell} {s t : Stage}

theorem Tiles.le (h : Tiles lo hi cells) : lo ≤ hi := by
  induction cells generalizing lo with
  | nil => exact Nat.le_of_eq h
  | cons c rest ih =>
    obtain ⟨-, hlt, hrest⟩ := h
    have := ih hrest
    omega

theorem Tiles.bounds (h : Tiles lo hi cells) (hc : c ∈ cells) :
    lo ≤ c.start ∧ c.start < c.stop ∧ c.stop ≤ hi := by
  induction cells generalizing lo with
  | nil => cases hc
  | cons d rest ih =>
    obtain ⟨hstart, hlt, hrest⟩ := h
    cases hc with
    | head =>
      have := hrest.le
      omega
    | tail _ hc =>
      have := ih hrest hc
      omega

theorem shows_cons :
    Shows (c :: rest) o s ↔ (c.start ≤ o ∧ o < c.stop ∧ c.stage = s) ∨ Shows rest o s := by
  simp [Shows]

theorem Tiles.le_of_shows (h : Tiles lo hi cells) (hs : Shows cells o s) : lo ≤ o ∧ o < hi := by
  obtain ⟨c, hc, hle, hlt, -⟩ := hs
  have := h.bounds hc
  omega

/-- From the end of its first cell on, a row shows what its other cells show. -/
theorem shows_rest (ho : c.stop ≤ o) : Shows (c :: rest) o s ↔ Shows rest o s := by
  rw [shows_cons]
  constructor
  · intro h
    cases h with
    | inl h => omega
    | inr h => exact h
  · exact .inr

/-- In its first cell a row shows the stage of that cell. -/
theorem Tiles.shows_first (h : Tiles lo hi (c :: rest)) (ho : lo ≤ o) (hc : o < c.stop) :
    Shows (c :: rest) o s ↔ s = c.stage := by
  obtain ⟨hstart, -, hrest⟩ := h
  rw [shows_cons]
  constructor
  · intro h
    cases h with
    | inl h => exact h.2.2.symm
    | inr h =>
      have := hrest.le_of_shows h
      omega
  · intro h
    exact .inl ⟨by omega, hc, h.symm⟩

/-- Every offset of the row has a stage. -/
theorem Tiles.exists_shows (h : Tiles lo hi cells) (hlo : lo ≤ o) (hhi : o < hi) :
    ∃ s, Shows cells o s := by
  induction cells generalizing lo with
  | nil =>
    have : lo = hi := h
    omega
  | cons c rest ih =>
    by_cases hin : o < c.stop
    · exact ⟨c.stage, (h.shows_first hlo hin).2 rfl⟩
    · obtain ⟨s, hs⟩ := ih h.2.2 (by omega)
      exact ⟨s, shows_cons.2 (.inr hs)⟩

/-- The first cell of a row of different neighbours stops where its stage does, so no row that
shows the same has a longer first cell. -/
theorem Tiles.stop_le (h : Tiles lo hi (c :: cells)) (hd : Differ (c :: cells))
    (h' : Tiles lo hi (d :: rest))
    (hs : ∀ o s, lo ≤ o → Shows (c :: cells) o s → Shows (d :: rest) o s) : d.stop ≤ c.stop := by
  by_contra hlonger
  have hle := h'.2.2.le
  have hlt := h.2.1
  have hstage : c.stage = d.stage :=
    (h'.shows_first (Nat.le_refl _) h'.2.1).1 (hs lo _ (Nat.le_refl _)
      ((h.shows_first (Nat.le_refl _) hlt).2 rfl))
  obtain ⟨-, -, hcells⟩ := h
  cases cells with
  | nil =>
    have : c.stop = hi := hcells
    omega
  | cons e cells =>
    have next : Shows (c :: e :: cells) c.stop e.stage :=
      (shows_rest (Nat.le_refl _)).2 ((hcells.shows_first (Nat.le_refl _) hcells.2.1).2 rfl)
    have := (h'.shows_first (by omega) (by omega)).1 (hs _ _ (by omega) next)
    exact (List.isChain_cons_cons.1 hd).1 (hstage.trans this.symm)

/-- Rows of different neighbours that show the same stages are the same. -/
theorem Tiles.ext {cells' : List Cell} (h : Tiles lo hi cells) (h' : Tiles lo hi cells')
    (hd : Differ cells) (hd' : Differ cells')
    (hs : ∀ o s, lo ≤ o → (Shows cells o s ↔ Shows cells' o s)) : cells = cells' := by
  induction cells generalizing lo cells' with
  | nil =>
    cases cells' with
    | nil => rfl
    | cons c' rest' =>
      have : lo = hi := h
      have := h'.2.2.le
      have := h'.2.1
      omega
  | cons c rest ih =>
    cases cells' with
    | nil =>
      have : lo = hi := h'
      have := h.2.2.le
      have := h.2.1
      omega
    | cons c' rest' =>
      have hstage : c.stage = c'.stage :=
        (h'.shows_first (Nat.le_refl _) h'.2.1).1 ((hs lo _ (Nat.le_refl _)).1
          ((h.shows_first (Nat.le_refl _) h.2.1).2 rfl))
      have hstop : c.stop = c'.stop :=
        Nat.le_antisymm (h'.stop_le hd' h fun o s ho => (hs o s ho).2)
          (h.stop_le hd h' fun o s ho => (hs o s ho).1)
      have hstart : c.start = c'.start := h.1.trans h'.1.symm
      obtain ⟨-, hlt, hrest⟩ := h
      obtain ⟨-, -, hrest'⟩ := h'
      have same : rest = rest' := by
        refine ih hrest (hstop ▸ hrest') hd.tail hd'.tail fun o s ho => ?_
        rw [← shows_rest ho, hs o s (by omega), shows_rest (hstop ▸ ho)]
      rw [same, show c = c' by cases c; cases c'; simp_all]

/-! ## The steps of a mark -/

/-- After a split the offset lies inside no cell. -/
theorem Tiles.split (h : Tiles lo hi cells) :
    Tiles lo hi (cells.flatMap (Cell.split o)) ∧
      ∀ c ∈ cells.flatMap (Cell.split o), o ≤ c.start ∨ c.stop ≤ o := by
  induction cells generalizing lo with
  | nil => exact ⟨h, by simp⟩
  | cons c rest ih =>
    obtain ⟨hstart, hlt, hrest⟩ := h
    obtain ⟨tiles, parted⟩ := ih hrest
    rw [List.flatMap_cons, Cell.split]
    split
    · next hin =>
      refine ⟨⟨hstart, by simp; omega, rfl, hin.2, tiles⟩, fun d hd => ?_⟩
      simp only [List.cons_append, List.nil_append, List.mem_cons] at hd
      rcases hd with rfl | rfl | hd
      · exact .inr (Nat.le_refl _)
      · exact .inl (Nat.le_refl _)
      · exact parted d hd
    · next hout =>
      refine ⟨⟨hstart, hlt, tiles⟩, fun d hd => ?_⟩
      simp only [List.cons_append, List.nil_append, List.mem_cons] at hd
      rcases hd with rfl | hd
      · omega
      · exact parted d hd

theorem exists_of_mem_split (h : d ∈ cells.flatMap (Cell.split o)) :
    ∃ c ∈ cells, c.start ≤ d.start ∧ d.stop ≤ c.stop := by
  obtain ⟨c, hc, hd⟩ := List.mem_flatMap.1 h
  refine ⟨c, hc, ?_⟩
  rw [Cell.split] at hd
  split at hd <;> simp at hd
  · rcases hd with rfl | rfl <;> dsimp only <;> omega
  · subst hd
    omega

theorem shows_split {x : Nat} : Shows (cells.flatMap (Cell.split o)) x s ↔ Shows cells x s := by
  induction cells with
  | nil => rfl
  | cons c rest ih =>
    rw [List.flatMap_cons, Cell.split, shows_cons, ← ih]
    split
    · simp only [List.cons_append, List.nil_append, shows_cons]
      rw [← or_assoc]
      refine or_congr_left ?_
      by_cases hs : c.stage = s
      · simp only [hs, and_true]
        omega
      · simp [hs]
    · simp only [List.cons_append, List.nil_append, shows_cons]

/-- Neighbours touch, and differ but perhaps where a boundary from `lo` to `hi` parts them. -/
def Parted (lo hi : Nat) (cells : List Cell) : Prop :=
  cells.IsChain fun c d => c.stop = d.start ∧ (c.stage = d.stage → lo ≤ d.start ∧ d.start ≤ hi)

theorem Tiles.parted (h : Tiles lo hi cells) (hd : Differ cells) (x y : Nat) :
    Parted x y cells := by
  induction cells generalizing lo with
  | nil => exact .nil
  | cons c rest ih =>
    refine List.isChain_cons.2 ⟨fun d hd' => ?_, ih h.2.2 hd.tail⟩
    obtain ⟨rest, rfl⟩ := List.head?_eq_some_iff.1 hd'
    exact ⟨h.2.2.1.symm, fun he => absurd he (List.isChain_cons_cons.1 hd).1⟩

theorem head?_split {d : Cell} (h : d ∈ (cells.flatMap (Cell.split o)).head?) :
    ∃ e ∈ cells.head?, d.start = e.start ∧ d.stage = e.stage := by
  cases cells with
  | nil => cases h
  | cons e rest =>
    refine ⟨e, rfl, ?_⟩
    rw [List.flatMap_cons, Cell.split] at h
    split at h <;> cases h <;> exact ⟨rfl, rfl⟩

theorem Parted.split (h : Parted lo hi cells) (hlo : lo ≤ o) (hhi : o ≤ hi) :
    Parted lo hi (cells.flatMap (Cell.split o)) := by
  induction cells with
  | nil => exact .nil
  | cons c rest ih =>
    obtain ⟨hnext, hrest⟩ := List.isChain_cons.1 h
    have follows {x : Cell} (hstop : x.stop = c.stop) (hstage : x.stage = c.stage) :
        ∀ d ∈ (rest.flatMap (Cell.split o)).head?,
          x.stop = d.start ∧ (x.stage = d.stage → lo ≤ d.start ∧ d.start ≤ hi) := by
      intro d hd
      obtain ⟨e, he, hstart, hstage'⟩ := head?_split hd
      rw [hstop, hstage, hstart, hstage']
      exact hnext e he
    rw [List.flatMap_cons, Cell.split]
    split
    · refine List.isChain_cons_cons.2 ⟨⟨rfl, fun _ => ⟨hlo, hhi⟩⟩, ?_⟩
      exact List.isChain_cons.2 ⟨follows rfl rfl, ih hrest⟩
    · exact List.isChain_cons.2 ⟨follows rfl rfl, ih hrest⟩

/-! ### Raising stages -/

theorem tiles_raiseIn {x y : Nat} :
    Tiles lo hi (cells.map (Cell.raiseIn x y t)) ↔ Tiles lo hi cells := by
  induction cells generalizing lo with
  | nil => rfl
  | cons c rest ih =>
    rw [List.map_cons, Tiles, Tiles, ih, Cell.raiseIn]
    split <;> rfl

/-- Where no cell crosses the ends of the range, the cells that start in it are those inside. -/
theorem shows_raiseIn {x y : Nat} (hx : ∀ c ∈ cells, x ≤ c.start ∨ c.stop ≤ x)
    (hy : ∀ c ∈ cells, y ≤ c.start ∨ c.stop ≤ y) :
    Shows (cells.map (Cell.raiseIn x y t)) o s ↔
      ∃ u, Shows cells o u ∧ s = if x ≤ o ∧ o < y then Cell.raise t u else u := by
  have each (c : Cell) (hc : c ∈ cells) :
      ((c.raiseIn x y t).start ≤ o ∧ o < (c.raiseIn x y t).stop ∧ (c.raiseIn x y t).stage = s) ↔
        c.start ≤ o ∧ o < c.stop ∧
          s = if x ≤ o ∧ o < y then Cell.raise t c.stage else c.stage := by
    have := hx c hc
    have := hy c hc
    by_cases hin : x ≤ c.start ∧ c.start < y
    · rw [Cell.raiseIn, if_pos hin]
      dsimp only
      constructor
      · rintro ⟨_, _, rfl⟩
        rw [if_pos (by omega)]
        exact ⟨by omega, by omega, rfl⟩
      · rintro ⟨_, _, rfl⟩
        rw [if_pos (by omega)]
        exact ⟨by omega, by omega, rfl⟩
    · rw [Cell.raiseIn, if_neg hin]
      constructor
      · rintro ⟨_, _, rfl⟩
        rw [if_neg (by omega)]
        exact ⟨by omega, by omega, rfl⟩
      · rintro ⟨_, _, rfl⟩
        rw [if_neg (by omega)]
        exact ⟨by omega, by omega, rfl⟩
  constructor
  · rintro ⟨_, hmem, h⟩
    obtain ⟨c, hc, rfl⟩ := List.mem_map.1 hmem
    obtain ⟨hle, hlt, hs⟩ := (each c hc).1 h
    exact ⟨c.stage, ⟨c, hc, hle, hlt, rfl⟩, hs⟩
  · rintro ⟨_, ⟨c, hc, hle, hlt, rfl⟩, hs⟩
    exact ⟨_, List.mem_map_of_mem hc, (each c hc).2 ⟨hle, hlt, hs⟩⟩

/-- Cells that a mark raises apart from their neighbours lie at its boundaries. -/
theorem Parted.raiseIn (h : Parted lo hi cells) (hb : ∀ c ∈ cells, c.start < c.stop)
    (hhi : ∀ c ∈ cells, hi ≤ c.start ∨ c.stop ≤ hi) :
    Parted lo hi (cells.map (Cell.raiseIn lo hi t)) := by
  rw [Parted, List.isChain_map]
  refine h.imp_of_mem_imp fun c d hc hd hcd => ?_
  have := hb c hc
  have := hb d hd
  have := hhi c hc
  obtain ⟨htouch, hstage⟩ := hcd
  have start (e : Cell) : (e.raiseIn lo hi t).start = e.start := by
    unfold Cell.raiseIn
    split <;> rfl
  have stop (e : Cell) : (e.raiseIn lo hi t).stop = e.stop := by
    unfold Cell.raiseIn
    split <;> rfl
  refine ⟨by rw [start, stop, htouch], fun he => ?_⟩
  rw [start]
  by_contra hout
  -- outside the range both cells are as they were
  have same {e : Cell} (h : ¬(lo ≤ e.start ∧ e.start < hi)) : e.raiseIn lo hi t = e := if_neg h
  rw [same (by omega), same (by omega)] at he
  exact hout (hstage he)

/-! ### Joining cells -/

theorem tiles_coalesce (h : Tiles lo hi (c :: rest)) (x y : Nat) :
    Tiles lo hi (c.coalesce x y rest) := by
  induction rest generalizing c lo with
  | nil => exact h
  | cons d rest ih =>
    obtain ⟨hstart, hlt, hd, hdlt, hrest⟩ := h
    rw [Cell.coalesce]
    split
    · exact ih (c := ⟨c.start, d.stop, c.stage⟩) ⟨hstart, Nat.lt_trans hlt hdlt, hrest⟩
    · exact ⟨hstart, hlt, ih ⟨hd, hdlt, hrest⟩⟩

theorem shows_coalesce (h : Tiles lo hi (c :: rest)) (x y : Nat) :
    Shows (c.coalesce x y rest) o s ↔ Shows (c :: rest) o s := by
  induction rest generalizing c lo with
  | nil => rfl
  | cons d rest ih =>
    obtain ⟨hstart, hlt, hd, hdlt, hrest⟩ := h
    rw [Cell.coalesce]
    split
    · next hsame =>
      rw [ih (c := ⟨c.start, d.stop, c.stage⟩) ⟨hstart, Nat.lt_trans hlt hdlt, hrest⟩, shows_cons,
        shows_cons, shows_cons, ← or_assoc]
      refine or_congr_left ?_
      by_cases hs : c.stage = s
      · simp only [hs, ← hsame.2.2, and_true]
        omega
      · simp [hs, ← hsame.2.2]
    · rw [shows_cons, shows_cons, ih ⟨hd, hdlt, hrest⟩]

theorem head?_coalesce {x y : Nat} (h : d ∈ (c.coalesce x y rest).head?) :
    d.start = c.start ∧ d.stage = c.stage := by
  induction rest generalizing c with
  | nil => cases h; exact ⟨rfl, rfl⟩
  | cons e rest ih =>
    rw [Cell.coalesce] at h
    split at h
    · exact ih (c := ⟨c.start, e.stop, c.stage⟩) h
    · cases h; exact ⟨rfl, rfl⟩

theorem Parted.coalesce {x y : Nat} (h : Parted x y (c :: rest)) :
    Differ (c.coalesce x y rest) := by
  induction rest generalizing c with
  | nil => exact List.isChain_singleton _
  | cons d rest ih =>
    obtain ⟨⟨htouch, hstage⟩, hrest⟩ := List.isChain_cons_cons.1 h
    rw [Cell.coalesce]
    split
    · next hsame =>
      refine ih (List.isChain_cons.2 ⟨fun e he => ?_, hrest.tail⟩)
      rw [hsame.2.2]
      exact (List.isChain_cons.1 hrest).1 e he
    · next hother =>
      refine List.isChain_cons.2 ⟨fun e he hsame => hother ?_, ih hrest⟩
      rw [(head?_coalesce he).2] at hsame
      exact ⟨(hstage hsame).1, (hstage hsame).2, hsame⟩

end

/-! ## Partitions in normal form -/

/-- The cells cover the text, none is empty, and neighbours differ. -/
structure IsNormal (p : Partition) : Prop where
  tiles : Tiles 0 limit p.cells
  differ : Differ p.cells

variable {p q : Partition} {lo hi o : Nat} {s t : Stage}

theorem isNormal_fresh : IsNormal fresh :=
  ⟨⟨rfl, by decide, rfl⟩, List.isChain_singleton _⟩

/-- A partition in normal form is told by the stages of the offsets. -/
theorem IsNormal.ext (h : p.IsNormal) (h' : q.IsNormal)
    (hs : ∀ o s, Shows p.cells o s ↔ Shows q.cells o s) : p = q := by
  have := h.tiles.ext h'.tiles h.differ h'.differ fun o s _ => hs o s
  cases p
  cases q
  exact congrArg Partition.mk this

/-- A mark keeps the normal form and raises the stages of the offsets in its range. -/
theorem IsNormal.mark (h : p.IsNormal) (lo hi : Nat) (t : Stage) :
    (p.mark lo hi t).IsNormal ∧ ∀ o s, Shows (p.mark lo hi t).cells o s ↔
      ∃ u, Shows p.cells o u ∧ s = if lo ≤ o ∧ o < hi then Cell.raise t u else u := by
  unfold Partition.mark
  split
  · next hlt =>
    obtain ⟨tiles₁, apart₁⟩ := h.tiles.split (o := lo)
    obtain ⟨tiles₂, apart₂⟩ := tiles₁.split (o := hi)
    dsimp only [splitAt]
    generalize hcells : (p.cells.flatMap (Cell.split lo)).flatMap (Cell.split hi) = cells at *
    have apart : ∀ c ∈ cells, lo ≤ c.start ∨ c.stop ≤ lo := by
      intro c hc
      obtain ⟨d, hd, _, _⟩ := exists_of_mem_split (hcells ▸ hc)
      have := apart₁ d hd
      omega
    have parted : Parted lo hi cells :=
      hcells ▸ ((h.tiles.parted h.differ lo hi).split (Nat.le_refl _) (by omega)).split
        (by omega) (Nat.le_refl _)
    have shows' (o s) : Shows cells o s ↔ Shows p.cells o s := by
      rw [← hcells, shows_split, shows_split]
    have raised := tiles_raiseIn (x := lo) (y := hi) (t := t) |>.2 tiles₂
    have raisedParted := parted.raiseIn (t := t) (fun c hc => (tiles₂.bounds hc).2.1) apart₂
    have raisedShows (o s) := shows_raiseIn (o := o) (s := s) (t := t) apart apart₂
    simp only [shows'] at raisedShows
    generalize cells.map (Cell.raiseIn lo hi t) = marked at *
    cases marked with
    | nil => exact absurd (show 0 = limit from raised) (by decide)
    | cons c rest =>
      exact ⟨⟨tiles_coalesce raised lo hi, raisedParted.coalesce⟩,
        fun o s => (shows_coalesce raised lo hi).trans (raisedShows o s)⟩
  · next hle =>
    refine ⟨h, fun o s => ?_⟩
    simp only [show ¬(lo ≤ o ∧ o < hi) by omega, if_false]
    constructor
    · exact fun hs => ⟨s, hs, rfl⟩
    · rintro ⟨_, hs, rfl⟩
      exact hs

/-! ## Any number of marks -/

/-- A range of text, perhaps empty, and the stage it is marked with. -/
structure Mark where
  lo : Nat
  hi : Nat
  stage : Stage

/-- What a list of marks makes of a fresh partition. -/
def markAll (marks : List Mark) : Partition :=
  marks.foldl (fun p m => p.mark m.lo m.hi m.stage) fresh

/-- The stage is the highest one that a mark around the offset asks for, `either` if there is no
such mark. -/
def IsHighest (marks : List Mark) (o : Nat) (s : Stage) : Prop :=
  (s = .either ∨ ∃ m ∈ marks, m.lo ≤ o ∧ o < m.hi ∧ m.stage = s) ∧
    ∀ m ∈ marks, m.lo ≤ o → o < m.hi → m.stage.priority ≤ s.priority

variable {marks marks' : List Mark}

theorem markAll_append_singleton (m : Mark) :
    markAll (marks ++ [m]) = (markAll marks).mark m.lo m.hi m.stage := by
  simp [markAll]

theorem isNormal_markAll (marks : List Mark) : (markAll marks).IsNormal := by
  induction marks using List.reverseRecOn with
  | nil => exact isNormal_fresh
  | append_singleton marks m ih =>
    rw [markAll_append_singleton]
    exact (ih.mark m.lo m.hi m.stage).1

theorem IsHighest.unique (h : IsHighest marks o s) (h' : IsHighest marks o t) : s = t := by
  have bound {a b : Stage} (ha : IsHighest marks o a) (hb : IsHighest marks o b) :
      a.priority ≤ b.priority := by
    rcases ha.1 with rfl | ⟨m, hm, hlo, hhi, rfl⟩
    · exact Nat.zero_le _
    · exact hb.2 m hm hlo hhi
  exact Stage.priority_injective (Nat.le_antisymm (bound h h') (bound h' h))

theorem priority_raise : (Cell.raise s t).priority = max s.priority t.priority := by
  unfold Cell.raise
  split <;> omega

/-- One more mark raises the highest stage of the offsets around which it lies. -/
theorem IsHighest.raise (h : IsHighest marks o s) (m : Mark) :
    IsHighest (marks ++ [m]) o (if m.lo ≤ o ∧ o < m.hi then Cell.raise m.stage s else s) := by
  obtain ⟨hex, htop⟩ := h
  have old : s = .either ∨ ∃ m' ∈ marks ++ [m], m'.lo ≤ o ∧ o < m'.hi ∧ m'.stage = s := by
    rcases hex with hs | ⟨m', hm', hs⟩
    · exact .inl hs
    · exact .inr ⟨m', List.mem_append_left _ hm', hs⟩
  by_cases hin : m.lo ≤ o ∧ o < m.hi
  · rw [if_pos hin]
    refine ⟨?_, fun m' hm' hlo hhi => ?_⟩
    · unfold Cell.raise
      split
      · exact .inr ⟨m, by simp, hin.1, hin.2, rfl⟩
      · exact old
    · rw [priority_raise]
      rcases List.mem_append.1 hm' with hm' | hm'
      · exact Nat.le_trans (htop m' hm' hlo hhi) (Nat.le_max_right _ _)
      · cases List.mem_singleton.1 hm'
        exact Nat.le_max_left _ _
  · rw [if_neg hin]
    refine ⟨old, fun m' hm' hlo hhi => ?_⟩
    rcases List.mem_append.1 hm' with hm' | hm'
    · exact htop m' hm' hlo hhi
    · cases List.mem_singleton.1 hm'
      exact absurd ⟨hlo, hhi⟩ hin

/-- An offset shows the highest stage of the marks around it. -/
theorem shows_markAll (marks : List Mark) (o : Nat) (s : Stage) :
    Shows (markAll marks).cells o s ↔ o < limit ∧ IsHighest marks o s := by
  have highest {s : Stage} (h : Shows (markAll marks).cells o s) : IsHighest marks o s := by
    induction marks using List.reverseRecOn generalizing s with
    | nil =>
      have := ((isNormal_fresh.tiles.shows_first (Nat.zero_le o)
        (isNormal_fresh.tiles.le_of_shows h).2).1 h)
      exact ⟨.inl this, by simp⟩
    | append_singleton marks m ih =>
      rw [markAll_append_singleton] at h
      obtain ⟨u, hu, rfl⟩ := (((isNormal_markAll marks).mark m.lo m.hi m.stage).2 o s).1 h
      exact (ih hu).raise m
  constructor
  · exact fun h => ⟨((isNormal_markAll marks).tiles.le_of_shows h).2, highest h⟩
  · rintro ⟨hlt, hs⟩
    obtain ⟨t, ht⟩ := (isNormal_markAll marks).tiles.exists_shows (Nat.zero_le o) hlt
    rw [hs.unique (highest ht)]
    exact ht

/-! ## Looking up an offset -/

/-- The last cell that starts at or before an offset holds the offset, or the row ends there. -/
theorem Tiles.exists_getLast? {cells : List Cell} (h : Tiles lo hi cells) (hlt : lo < hi)
    (ho : lo ≤ o) : ∃ c ∈ cells, (cells.filter (·.start ≤ o)).getLast? = some c ∧ c.start ≤ o ∧
      (o < hi → o < c.stop) := by
  induction cells generalizing lo with
  | nil =>
    have : lo = hi := h
    omega
  | cons c rest ih =>
    obtain ⟨hstart, -, hrest⟩ := h
    have hc : c.start ≤ o := by omega
    rw [List.filter_cons_of_pos (by simpa using hc)]
    by_cases hin : c.stop ≤ o ∧ c.stop < hi
    · obtain ⟨d, hd, hlast, hle, hstop⟩ := ih hrest hin.2 hin.1
      exact ⟨d, List.mem_cons_of_mem _ hd, by rw [List.getLast?_cons, hlast]; rfl, hle, hstop⟩
    · have none_after : rest.filter (·.start ≤ o) = [] := by
        refine List.filter_eq_nil_iff.2 fun d hd => ?_
        have := hrest.bounds hd
        simp only [decide_eq_true_eq]
        omega
      have := hrest.le
      exact ⟨c, List.mem_cons_self, by rw [none_after]; rfl, hc, by omega⟩

theorem IsNormal.exists_containing? (h : p.IsNormal) (o : Nat) :
    ∃ c ∈ p.cells, p.containing? o = some c ∧ c.start ≤ o ∧ (o < limit → o < c.stop) :=
  h.tiles.exists_getLast? (by decide) (Nat.zero_le o)

/-- A mark cuts the cells before it looks up its other end: the lookup finds a cell there too. -/
theorem IsNormal.containing?_splitAt (h : p.IsNormal) (cut o : Nat) :
    ((p.splitAt cut).containing? o).isSome := by
  obtain ⟨c, -, hc, -⟩ := (h.tiles.split (o := cut)).1.exists_getLast? (by decide) (Nat.zero_le o)
  rw [Partition.containing?, splitAt, hc]
  rfl

/-! ## The law of marks -/

/-- Any marks, also empty or reversed ones, leave cells that are not empty, touch one another,
cover the text and differ from their neighbours. Every offset is found, at any point of a mark, and
has the highest stage of the marks around it; so marks in another order, or repeated, leave the
same partition. -/
theorem markAll_partition (marks : List Mark) :
    Tiles 0 limit (markAll marks).cells ∧ Differ (markAll marks).cells ∧
    (∀ o < limit, ∃ c, (markAll marks).containing? o = some c ∧ c.start ≤ o ∧ o < c.stop ∧
      IsHighest marks o c.stage) ∧
    (∀ o, ((markAll marks).containing? o).isSome ∧
      ∀ cut, (((markAll marks).splitAt cut).containing? o).isSome) ∧
    ∀ marks', (∀ m, m ∈ marks' ↔ m ∈ marks) → markAll marks' = markAll marks := by
  have normal := isNormal_markAll marks
  refine ⟨normal.tiles, normal.differ, fun o ho => ?_, fun o => ⟨?_, fun cut => ?_⟩,
    fun marks' same => ?_⟩
  · obtain ⟨c, hmem, hc, hle, hlt⟩ := normal.exists_containing? o
    have shown : Shows (markAll marks).cells o c.stage := ⟨c, hmem, hle, hlt ho, rfl⟩
    exact ⟨c, hc, hle, hlt ho, ((shows_markAll marks o c.stage).1 shown).2⟩
  · obtain ⟨c, -, hc, -⟩ := normal.exists_containing? o
    rw [hc]
    rfl
  · exact normal.containing?_splitAt cut o
  · refine (isNormal_markAll marks').ext normal fun o s => ?_
    have : IsHighest marks' o s ↔ IsHighest marks o s := by
      unfold IsHighest
      simp only [same]
    rw [shows_markAll, shows_markAll, this]

end Stencil.Partition
