import Mathlib.Data.List.Infix
import MenuPages.Proofs.Text.Words

/-!
# Patterns

The regular expressions that the parts of a page are described with, and which match of one counts:
the leftmost in the text; of several that start there, the one that a search would find which tries
the choices of the pattern in order and goes back to the last one whenever it gets stuck. What is to
be taken as often as possible is tried with the most first, and what is to be taken as rarely as
possible with the fewest first.

So the matches at one place are a list, the preferred ones first (`Pattern.matchesAt`), and going
back is nothing but reading on in that list. Two laws tell which end of the list counts: of the
greedy choices only the last one leaves something else than more of the same
(`exists_runs_eq_append`), and the lazy choices in front of a word end at the first place of the
word (`head?_flatMap_runs`).
-/

namespace MenuPages

/-- A pattern for texts. -/
inductive Pattern where
  /-- A word, ASCII letters in any case. -/
  | word (w : Text)
  /-- Characters of a class, as many as possible. -/
  | most (p : Char → Bool)
  /-- Characters of a class, as few as possible. -/
  | fewest (p : Char → Bool)
  /-- A pattern whose text is kept. -/
  | kept (p : Pattern)
  /-- A pattern behind another one. -/
  | followed (p q : Pattern)

namespace Pattern

open Text

/-- A match at the front of a text. -/
structure Match where
  text : Text
  /-- What was kept, if anything was. -/
  kept : Option Text
  /-- The text behind the match. -/
  rest : Text

/-- The ways to take characters of a class off the front of a text, the fewest first. -/
def runs (p : Char → Bool) : Text → List (Text × Text)
  | [] => [([], [])]
  | c :: s => ([], c :: s) :: if p c then (runs p s).map fun r => (c :: r.1, r.2) else []

/-- The matches at the front of a text, the preferred ones first. -/
def matchesAt : Pattern → Text → List Match
  | word w, s => (afterWord? w s).toList.map fun rest => ⟨s.take w.length, none, rest⟩
  | most p, s => (runs p s).reverse.map fun r => ⟨r.1, none, r.2⟩
  | fewest p, s => (runs p s).map fun r => ⟨r.1, none, r.2⟩
  | kept p, s => (p.matchesAt s).map fun m => { m with kept := some m.text }
  | followed p q, s =>
    (p.matchesAt s).flatMap fun m =>
      (q.matchesAt m.rest).map fun n => ⟨m.text ++ n.text, n.kept.or m.kept, n.rest⟩

/-- The match that counts: at the leftmost place where there is one, the preferred one. -/
def find? (p : Pattern) (s : Text) : Option Match := s.tails.findSome? fun t => (p.matchesAt t).head?

/-- What a pattern keeps of a text. -/
def keeps? (p : Pattern) (s : Text) : Option Text := (p.find? s).bind Match.kept

theorem find?_cons (p : Pattern) (c : Char) (s : Text) :
    p.find? (c :: s) = (p.matchesAt (c :: s)).head?.or (p.find? s) := by
  rw [find?, List.tails_cons, List.findSome?_cons, find?]
  cases (p.matchesAt (c :: s)).head? <;> rfl

/-- Nothing is found where there is no match at any place. -/
theorem find?_eq_none {p : Pattern} {s : Text} (h : ∀ t, t <:+ s → p.matchesAt t = []) :
    p.find? s = none := by
  rw [find?, List.findSome?_eq_none_iff]
  intro t ht
  rw [h t ((List.mem_tails t s).1 ht)]
  rfl

/-! ## As many as possible -/

/-- All ways but the last one leave a character of the class in front. -/
theorem exists_runs_eq_append (p : Char → Bool) (s : Text) :
    ∃ fewer, runs p s = fewer ++ [(s.takeWhile p, s.dropWhile p)] ∧
      ∀ r ∈ fewer, ∃ c t, r.2 = c :: t ∧ p c = true := by
  induction s with
  | nil => exact ⟨[], rfl, nofun⟩
  | cons c s ih =>
    by_cases hc : p c = true
    · obtain ⟨fewer, hruns, hfewer⟩ := ih
      refine ⟨([], c :: s) :: fewer.map fun r => (c :: r.1, r.2), ?_, ?_⟩
      · rw [runs, if_pos hc, hruns, List.takeWhile_cons_of_pos hc, List.dropWhile_cons_of_pos hc,
          List.map_append]
        rfl
      · intro r hr
        rcases List.mem_cons.1 hr with rfl | hr
        · exact ⟨c, s, rfl, hc⟩
        · obtain ⟨q, hq, rfl⟩ := List.mem_map.1 hr
          exact hfewer q hq
    · refine ⟨[], ?_, nofun⟩
      rw [runs, if_neg hc, List.takeWhile_cons_of_neg hc, List.dropWhile_cons_of_neg hc]
      rfl

/-- Characters that are not `d`, as many as possible, and then `d`: that goes on behind the first
`d` and nowhere else. -/
theorem matchesAt_most_ne (d : Char) (hd : d.isAlpha = false) (q : Pattern) (s : Text) :
    matchesAt (followed (most (· != d)) (followed (word [d]) q)) s =
      match s.dropWhile (· != d) with
      | [] => []
      | _ :: inside =>
        (q.matchesAt inside).map fun n =>
          { n with text := s.takeWhile (· != d) ++ d :: n.text } := by
  obtain ⟨fewer, hruns, hfewer⟩ := exists_runs_eq_append (· != d) s
  have hstuck (r : Text × Text) (hr : r ∈ fewer) : afterWord? [d] r.2 = none := by
    obtain ⟨c, t, hrest, hc⟩ := hfewer r hr
    rw [hrest, afterWord?]
    apply if_neg
    intro hsame
    exact bne_iff_ne.1 hc (eq_of_sameLetter hd hsame)
  have hnone : (fewer.reverse.flatMap fun r =>
      (matchesAt (followed (word [d]) q) r.2).map fun n =>
        (⟨r.1 ++ n.text, n.kept.or none, n.rest⟩ : Match)) = [] := by
    rw [List.flatMap_eq_nil_iff]
    intro r hr
    rw [matchesAt, matchesAt, hstuck r (List.mem_reverse.1 hr)]
    rfl
  have hlast : matchesAt (followed (most (· != d)) (followed (word [d]) q)) s =
      (matchesAt (followed (word [d]) q) (s.dropWhile (· != d))).map fun n =>
        ⟨s.takeWhile (· != d) ++ n.text, n.kept.or none, n.rest⟩ := by
    rw [matchesAt, matchesAt, hruns, List.reverse_append, List.map_append, List.flatMap_append,
      List.flatMap_map, List.flatMap_map, hnone, List.append_nil]
    simp only [List.reverse_singleton, List.flatMap_cons, List.flatMap_nil, List.append_nil]
  rw [hlast]
  cases hdrop : s.dropWhile (· != d) with
  | nil => rfl
  | cons c inside =>
    have hhead : c = d := by
      have := List.head?_dropWhile_not (· != d) s
      rw [hdrop] at this
      simpa using this
    subst hhead
    have hread : afterWord? [c] (c :: inside) = some inside := afterWord?_append (w := [c]) rfl inside
    rw [matchesAt, matchesAt, hread]
    simp

/-! ## As few as possible -/

/-- The first of the ways to come to a word is the way to its first place. -/
theorem head?_flatMap_runs (w s : Text) :
    ((runs (fun _ => true) s).flatMap fun r =>
      (afterWord? w r.2).toList.map fun rest => (r.1, rest)).head? = breakAt? w s := by
  induction s with
  | nil =>
    rw [runs, breakAt?, List.flatMap_singleton]
    cases afterWord? w [] <;> rfl
  | cons c s ih =>
    rw [runs, if_pos rfl, List.flatMap_cons, List.flatMap_map, List.head?_append, breakAt?, ← ih]
    cases afterWord? w (c :: s) with
    | some rest => rfl
    | none =>
      rw [← List.head?_map, List.map_flatMap]
      simp only [Option.toList_none, List.map_nil, List.head?_nil, Option.none_or, List.map_map,
        Function.comp_def]

/-- Anything, as little as possible and kept, and then a word: what counts is what stands before the
first place of the word. -/
theorem head?_matchesAt_fewest (w s : Text) :
    (matchesAt (followed (kept (fewest fun _ => true)) (word w)) s).head?.map
        (fun m => (m.kept, m.rest)) =
      (breakAt? w s).map fun parts => (some parts.1, parts.2) := by
  rw [← head?_flatMap_runs, ← List.head?_map, ← List.head?_map, List.map_flatMap, matchesAt,
    matchesAt, matchesAt, List.map_map, List.flatMap_map, List.map_flatMap]
  simp only [matchesAt, List.map_map, Function.comp_def, Option.none_or]

end Pattern

end MenuPages
