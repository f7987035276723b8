import Mathlib.Data.List.DropRight
import Stencil.TypeExpr

/-!
# Texts of types

A type is readable if each name in it is read as that named type. Printing and reading are inverse
on readable types, and whatever is read is readable, so a text that is a type prints to a text of
the same type. The text of a built type is cut where it was put together: its constructor has no
angle bracket in it, and the bracket that ends it is its last character.

Results:

* `parse_text` – readable types are read from their texts;
* `readable_of_parse` – what is read is readable;
* `Readable.promote`, `Readable.element?`, `Readable.awaited` – types made of readable ones.
-/
namespace Stencil

namespace Text

variable {cs : List Char}

theorem trimChars_eq_rdropWhile (cs : List Char) :
    trimChars cs = (cs.dropWhile isBlank).rdropWhile isBlank := rfl

/-- A text whose ends are not blank stays as it is. -/
theorem trimChars_of_ends (hhead : ∀ c, cs.head? = some c → isBlank c = false)
    (hlast : ∀ c, cs.getLast? = some c → isBlank c = false) : trimChars cs = cs := by
  have left : cs.dropWhile isBlank = cs := by
    refine List.dropWhile_eq_self_iff.2 fun hl => ?_
    rw [hhead cs[0] (by rw [List.head?_eq_getElem?, List.getElem?_eq_getElem hl])]
    exact Bool.false_ne_true
  rw [trimChars_eq_rdropWhile, left]
  refine List.rdropWhile_eq_self_iff.2 fun hl => ?_
  rw [hlast _ (List.getLast?_eq_getLast_of_ne_nil hl)]
  exact Bool.false_ne_true

theorem trimChars_trimChars (cs : List Char) : trimChars (trimChars cs) = trimChars cs := by
  refine trimChars_of_ends (fun c hc => ?_) fun c hc => ?_
  · -- what was cut at the end does not change where the text begins
    obtain ⟨rest, hrest⟩ := List.rdropWhile_prefix isBlank (cs.dropWhile isBlank)
    have first : (cs.dropWhile isBlank).head? = some c := by
      rw [← hrest, List.head?_append, ← trimChars_eq_rdropWhile, hc]
      rfl
    have := List.head?_dropWhile_not isBlank cs
    rw [first] at this
    simpa using this
  · have ne : (cs.dropWhile isBlank).rdropWhile isBlank ≠ [] := by
      rintro he
      rw [trimChars_eq_rdropWhile, he] at hc
      cases hc
    have := List.rdropWhile_last_not isBlank _ ne
    rw [trimChars_eq_rdropWhile, List.getLast?_eq_getLast_of_ne_nil ne, Option.some.injEq] at hc
    simpa [hc] using this

end Text

namespace TypeExpr

variable {t u : TypeExpr} {f : TypeExpr → TypeExpr} {word : String} {cs head inner : List Char}

/-! ## Reading, by the shape of the text -/

/-- A text without angle brackets. -/
theorem parseChars_plain (h : '<' ∉ Text.trimChars cs) :
    parseChars cs = match ofName? (String.ofList (Text.trimChars cs)) with
      | some t => .ok t
      | none => .error ⟨String.ofList (Text.trimChars cs)⟩ := by
  have none : (Text.trimChars cs).dropWhile (· != '<') = [] := by
    refine List.dropWhile_eq_nil_iff.2 fun c hc => ?_
    simpa using fun he : c = '<' => h (he ▸ hc)
  rw [parseChars]
  split
  · rfl
  · next heq => rw [none] at heq; cases heq

/-- A text with an angle bracket. -/
theorem parseChars_bracket {rest : List Char} (h : Text.trimChars cs = head ++ '<' :: rest)
    (hh : '<' ∉ head) :
    parseChars cs = match inner? ('<' :: rest) with
      | none => .error ⟨String.ofList (Text.trimChars cs)⟩
      | some inner => (parseChars inner).bind fun t =>
        match constructor? (String.ofList head) with
        | some f => .ok (f t)
        | none => .error ⟨String.ofList (Text.trimChars cs)⟩ := by
  have before : ∀ c ∈ head, (c != '<') = true := fun c hc => by
    simpa using fun he : c = '<' => hh (he ▸ hc)
  have cut : (Text.trimChars cs).dropWhile (· != '<') = '<' :: rest := by
    rw [h, List.dropWhile_append_of_pos before, List.dropWhile_cons_of_neg (by simp)]
  have word : (Text.trimChars cs).takeWhile (· != '<') = head := by
    rw [h, List.takeWhile_append_of_pos before, List.takeWhile_cons_of_neg (by simp),
      List.append_nil]
  rw [parseChars]
  split
  · next heq => rw [cut] at heq; cases heq
  · next bracket rest' heq =>
    rw [cut] at heq
    cases heq
    simp only [word]
    split
    · next hi => rw [hi]
    · next inner hi =>
      simp only [hi]
      cases parseChars inner <;> rfl

theorem inner?_eq_some {rest : List Char} :
    inner? ('<' :: rest) = some inner ↔ rest = inner ++ ['>'] := by
  rw [inner?, Option.ite_none_right_eq_some, Option.some.injEq]
  constructor
  · rintro ⟨hlast, rfl⟩
    exact (List.dropLast_append_getLast? _ hlast).symm
  · rintro rfl
    simp

/-- Texts of types, by their shape. -/
theorem parseChars_eq_ok (h : parseChars cs = .ok t) :
    ('<' ∉ Text.trimChars cs ∧ ofName? (String.ofList (Text.trimChars cs)) = some t) ∨
    ∃ head inner f u, Text.trimChars cs = head ++ '<' :: (inner ++ ['>']) ∧ '<' ∉ head ∧
      constructor? (String.ofList head) = some f ∧ parseChars inner = .ok u ∧ t = f u := by
  by_cases hb : '<' ∈ Text.trimChars cs
  · refine .inr ?_
    obtain ⟨head, rest, whole, hh⟩ := List.eq_append_cons_of_mem hb
    rw [parseChars_bracket whole hh] at h
    split at h
    · cases h
    · next inner hi =>
      rw [inner?_eq_some.1 hi] at whole
      cases hu : parseChars inner with
      | error e => rw [hu] at h; cases h
      | ok u =>
        rw [hu] at h
        dsimp only [Except.bind] at h
        split at h
        · next f hf =>
          cases h
          exact ⟨head, inner, f, u, whole, hh, hf, hu, rfl⟩
        · cases h
  · refine .inl ⟨hb, ?_⟩
    rw [parseChars_plain hb] at h
    split at h
    · next t' ht => cases h; exact ht
    · cases h

/-- A constructor around a type. -/
theorem parseChars_constructed (h : Text.trimChars cs = head ++ '<' :: (inner ++ ['>']))
    (hh : '<' ∉ head) (hf : constructor? (String.ofList head) = some f)
    (hu : parseChars inner = .ok u) : parseChars cs = .ok (f u) := by
  rw [parseChars_bracket h hh, inner?_eq_some.2 rfl]
  simp only [hu, hf]
  rfl

/-! ## Texts of built types -/

/-- The types that are written as a constructor around another type. -/
theorem text_constructed (hf : constructor? word = some f) (u : TypeExpr) :
    (f u).text = word ++ "<" ++ u.text ++ ">" := by
  unfold constructor? at hf
  split at hf
  all_goals first
    | cases hf; done
    | (cases hf; rfl)

/-- Constructors begin with a letter and have no angle bracket in them. -/
theorem constructor_chars (hf : constructor? word = some f) :
    '<' ∉ word.toList ∧ ∀ c, word.toList.head? = some c → Text.isBlank c = false := by
  have each : ∀ w ∈ ["List", "Task", "IEnumerable", "IEnumerator", "IAsyncEnumerable",
      "IAsyncEnumerator"], '<' ∉ w.toList ∧ w.toList.head?.all (!Text.isBlank ·) := by decide
  have listed : word ∈ ["List", "Task", "IEnumerable", "IEnumerator", "IAsyncEnumerable",
      "IAsyncEnumerator"] := by
    unfold constructor? at hf
    split at hf <;> first | simp; done | cases hf
  obtain ⟨bracket, first⟩ := each word listed
  exact ⟨bracket, fun c hc => by simpa [hc] using first⟩

/-- A constructor around the text of a type is read as the constructed type. -/
theorem parse_constructed (hf : constructor? word = some f) (hu : parse u.text = .ok u) :
    parse (f u).text = .ok (f u) := by
  obtain ⟨hb, hfirst⟩ := constructor_chars hf
  have chars : (f u).text.toList = word.toList ++ '<' :: (u.text.toList ++ ['>']) := by
    rw [text_constructed hf]
    simp [String.toList_append]
  have ends : Text.trimChars (f u).text.toList = (f u).text.toList := by
    rw [chars]
    refine Text.trimChars_of_ends (fun c hc => ?_) fun c hc => ?_
    · cases hw : word.toList with
      | nil =>
        rw [hw] at hc
        cases hc
        decide
      | cons first rest =>
        rw [hw] at hc hfirst
        exact hfirst c hc
    · rw [List.getLast?_append, ← List.cons_append, List.getLast?_concat] at hc
      cases hc
      decide
  refine parseChars_constructed (ends.trans chars) hb ?_ hu
  rwa [String.ofList_toList]

/-- A name without angle brackets and without blanks at its ends. -/
theorem parse_of_ofName? {name : String} (hn : ofName? name = some t) (hb : '<' ∉ name.toList)
    (ht : Text.trimChars name.toList = name.toList) : parse name = .ok t := by
  rw [parse, parseChars_plain (by rwa [ht]), ht, String.ofList_toList, hn]

/-! ## Readable types -/

/-- Every name in the type is read as the type of that name. -/
def Readable : TypeExpr → Prop
  | named name => parse name = .ok (named name)
  | list t | awaitable t | sequence t | enumerator t | asyncSequence t | asyncEnumerator t =>
    t.Readable
  | _ => True

theorem readable_constructed (hf : constructor? word = some f) : (f u).Readable ↔ u.Readable := by
  unfold constructor? at hf
  split at hf
  all_goals first
    | cases hf; done
    | (cases hf; exact .rfl)

/-- A readable type is read from its text. -/
theorem parse_text : (t : TypeExpr) → t.Readable → parse t.text = .ok t
  | void, _ | bool, _ | char, _ | string, _ | int, _ | long, _ | float, _ | double, _ | object, _
  | dynamic, _ | unknown, _ => parse_of_ofName? rfl (by decide) (by decide)
  | named _, h => h
  | list t, h => parse_constructed (show constructor? "List" = _ from rfl) (parse_text t h)
  | awaitable t, h => parse_constructed (show constructor? "Task" = _ from rfl) (parse_text t h)
  | sequence t, h =>
    parse_constructed (show constructor? "IEnumerable" = _ from rfl) (parse_text t h)
  | enumerator t, h =>
    parse_constructed (show constructor? "IEnumerator" = _ from rfl) (parse_text t h)
  | asyncSequence t, h =>
    parse_constructed (show constructor? "IAsyncEnumerable" = _ from rfl) (parse_text t h)
  | asyncEnumerator t, h =>
    parse_constructed (show constructor? "IAsyncEnumerator" = _ from rfl) (parse_text t h)

theorem readable_of_ofName? {name : String} (hn : ofName? name = some t) (hb : '<' ∉ name.toList)
    (ht : Text.trimChars name.toList = name.toList) : t.Readable := by
  have read := parse_of_ofName? hn hb ht
  unfold ofName? at hn
  split at hn
  all_goals first
    | cases hn; done
    | (cases hn; exact trivial)
    | (cases hn; exact read)

/-- What is read is readable: names are cut out without blanks at their ends. -/
theorem readable_of_parseChars {cs : List Char} {t : TypeExpr} (h : parseChars cs = .ok t) :
    t.Readable := by
  rcases parseChars_eq_ok h with ⟨hb, hn⟩ | ⟨head, inner, f, u, whole, -, hf, hu, rfl⟩
  · refine readable_of_ofName? hn ?_ ?_
    · rwa [String.toList_ofList]
    · rw [String.toList_ofList, Text.trimChars_trimChars]
  · have : inner.length < cs.length := by
      have := length_trimChars_le cs
      rw [whole] at this
      simp at this
      omega
    exact (readable_constructed hf).2 (readable_of_parseChars hu)
termination_by cs.length

theorem readable_of_parse {text : String} (h : parse text = .ok t) : t.Readable :=
  readable_of_parseChars h

/-! ## Types made of readable ones -/

theorem Readable.promote {l r : TypeExpr} (hl : l.Readable) (hr : r.Readable)
    (h : l.promote r = some t) : t.Readable := by
  unfold TypeExpr.promote at h
  split at h
  · cases h
    split
    · exact hl
    · exact hr
  · cases h

theorem Readable.element? (h : t.Readable) (hu : t.element? = some u) : u.Readable := by
  unfold TypeExpr.element? at hu
  split at hu
  all_goals first
    | (cases hu; done)
    | (cases hu; exact h)

theorem Readable.awaited (h : t.Readable) : t.awaited.Readable := by
  unfold TypeExpr.awaited
  split
  · exact h
  · exact h

end TypeExpr

end Stencil
