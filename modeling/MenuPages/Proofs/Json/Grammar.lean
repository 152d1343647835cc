import MenuPages.Json.Skip

/-!
# The grammar of JSON

What a JSON text is, said without reading it. Each relation takes a text and what is left of it: in
`Value s rest` the text `s` starts with a value, and `rest` is behind the value. So the parts of a
text are put together by handing on what is left, and nothing has to be cut out.

Strings come in two kinds. Where a text is wanted, the string stands for one (`Quoted`), so
surrogates come in pairs. Where any value will do, they need not (`AnyString`).

Numbers do not tell where they end. A number is read to its end only if what is left does not go on
with it, which is so behind every value of a text (`Stops`).
-/

namespace MenuPages.Json

open Text

/-! ## White space -/

/-- White space, perhaps none. -/
inductive Space : Text → Text → Prop
  | none (s : Text) : Space s s
  | char {c : Char} {s rest : Text} (hc : isPlainSpace c = true) (h : Space s rest) :
      Space (c :: s) rest

/-- What may be behind a value. -/
def Stops (s : Text) : Prop :=
  ∀ c, s.head? = some c → isPlainSpace c = true ∨ c = ',' ∨ c = ']' ∨ c = '}'

/-! ## Strings -/

/-- A hexadecimal digit and its value. -/
def IsHex (c : Char) (v : Nat) : Prop :=
  "0123456789abcdef".toList[v]? = some c ∨ "0123456789ABCDEF".toList[v]? = some c

/-- Four hexadecimal digits. -/
inductive FourHex : Nat → Text → Text → Prop
  | digits {a b c d : Char} {i j k l : Nat} {rest : Text} (ha : IsHex a i) (hb : IsHex b j)
      (hc : IsHex c k) (hd : IsHex d l) :
      FourHex (((i * 16 + j) * 16 + k) * 16 + l) (a :: b :: c :: d :: rest) rest

/-- The letters of the escapes of one letter, and what they stand for. -/
def letterEscapes : List (Char × Char) :=
  [('"', '"'), ('\\', '\\'), ('/', '/'), ('b', '\x08'), ('f', '\x0c'), ('n', '\n'), ('r', '\r'),
    ('t', '\t')]

/-- A character that may stand in a string as it is. -/
def IsPlain (c : Char) : Prop := c ≠ '"' ∧ c ≠ '\\' ∧ 0x20 ≤ c.toNat

instance : DecidablePred IsPlain := fun c =>
  inferInstanceAs (Decidable (c ≠ '"' ∧ c ≠ '\\' ∧ 0x20 ≤ c.toNat))

/-- A string that stands for a text, from behind its opening quote. -/
inductive Quoted : Text → Text → Text → Prop
  | close (rest : Text) : Quoted [] ('"' :: rest) rest
  | plain {c : Char} {v s rest : Text} (hc : IsPlain c) (h : Quoted v s rest) :
      Quoted (c :: v) (c :: s) rest
  | letter {e c : Char} {v s rest : Text} (he : (e, c) ∈ letterEscapes) (h : Quoted v s rest) :
      Quoted (c :: v) ('\\' :: e :: s) rest
  | unit {c : Char} {v s t rest : Text} (hc : FourHex c.toNat s t) (h : Quoted v t rest) :
      Quoted (c :: v) ('\\' :: 'u' :: s) rest
  | pair {c : Char} {v s t u rest : Text} (hc : 0x10000 ≤ c.toNat)
      (hlead : FourHex (0xD800 + (c.toNat - 0x10000) / 0x400) s ('\\' :: 'u' :: t))
      (htrail : FourHex (0xDC00 + (c.toNat - 0x10000) % 0x400) t u) (h : Quoted v u rest) :
      Quoted (c :: v) ('\\' :: 'u' :: s) rest

/-- Any string, from behind its opening quote. -/
inductive AnyString : Text → Text → Prop
  | close (rest : Text) : AnyString ('"' :: rest) rest
  | plain {c : Char} {s rest : Text} (hc : IsPlain c) (h : AnyString s rest) :
      AnyString (c :: s) rest
  | letter {e c : Char} {s rest : Text} (he : (e, c) ∈ letterEscapes) (h : AnyString s rest) :
      AnyString ('\\' :: e :: s) rest
  | unit {n : Nat} {s t rest : Text} (hn : FourHex n s t) (h : AnyString t rest) :
      AnyString ('\\' :: 'u' :: s) rest

/-! ## Numbers -/

/-- Digits, perhaps none. -/
inductive AnyDigits : Text → Text → Prop
  | none (s : Text) : AnyDigits s s
  | digit {c : Char} {s rest : Text} (hc : c.isDigit = true) (h : AnyDigits s rest) :
      AnyDigits (c :: s) rest

/-- At least one digit. -/
inductive SomeDigits : Text → Text → Prop
  | digits {c : Char} {s rest : Text} (hc : c.isDigit = true) (h : AnyDigits s rest) :
      SomeDigits (c :: s) rest

/-- The whole part of a number, without needless zeros in front. -/
inductive Whole : Text → Text → Prop
  | zero (s : Text) : Whole ('0' :: s) s
  | digits {c : Char} {s rest : Text} (hc : c.isDigit = true) (hzero : c ≠ '0')
      (h : AnyDigits s rest) : Whole (c :: s) rest

/-- The fraction of a number, perhaps none. -/
inductive Fraction : Text → Text → Prop
  | none (s : Text) : Fraction s s
  | digits {s rest : Text} (h : SomeDigits s rest) : Fraction ('.' :: s) rest

/-- The sign of an exponent, perhaps none. -/
inductive ExponentSign : Text → Text → Prop
  | none (s : Text) : ExponentSign s s
  | plus (s : Text) : ExponentSign ('+' :: s) s
  | minus (s : Text) : ExponentSign ('-' :: s) s

/-- The exponent of a number, perhaps none. -/
inductive Exponent : Text → Text → Prop
  | none (s : Text) : Exponent s s
  | digits {e : Char} {s t rest : Text} (he : e = 'e' ∨ e = 'E') (hsign : ExponentSign s t)
      (h : SomeDigits t rest) : Exponent (e :: s) rest

/-- A number without its sign. -/
inductive Magnitude : Text → Text → Prop
  | parts {s t u rest : Text} (hwhole : Whole s t) (hfraction : Fraction t u)
      (hexponent : Exponent u rest) : Magnitude s rest

/-! ## Values -/

/-- The bracket that opens a container. -/
def Container.opening : Container → Char
  | list => '['
  | object => '{'

mutual
/-- Any value. -/
inductive Value : Text → Text → Prop
  | word {w rest : Text} (hw : w ∈ ["null".toList, "true".toList, "false".toList]) :
      Value (w ++ rest) rest
  | positive {s rest : Text} (h : Magnitude s rest) : Value s rest
  | negative {s rest : Text} (h : Magnitude s rest) : Value ('-' :: s) rest
  | string {s rest : Text} (h : AnyString s rest) : Value ('"' :: s) rest
  | empty (k : Container) {s rest : Text} (h : Space s (k.closing :: rest)) :
      Value (k.opening :: s) rest
  | filled (k : Container) {s t rest : Text} (hs : Space s t) (h : Parts k t rest) :
      Value (k.opening :: s) rest
/-- The parts of a container, up to its closing bracket. -/
inductive Parts : Container → Text → Text → Prop
  | last {k : Container} {s t rest : Text} (h : Part k s t) (ht : Space t (k.closing :: rest)) :
      Parts k s rest
  | more {k : Container} {s t u v rest : Text} (h : Part k s t) (ht : Space t (',' :: u))
      (hu : Space u v) (hmore : Parts k v rest) : Parts k s rest
/-- A part of a container: a value, or a key and a value. -/
inductive Part : Container → Text → Text → Prop
  | element {s rest : Text} (h : Value s rest) : Part .list s rest
  | member {s t u v rest : Text} (hkey : AnyString s t) (ht : Space t (':' :: u))
      (hu : Space u v) (h : Value v rest) : Part .object ('"' :: s) rest
end

/-! ## White space and what is left -/

theorem Space.skipSpace_eq {s t : Text} (h : Space s t) : skipSpace s = skipSpace t := by
  induction h with
  | none => rfl
  | char hc _ ih =>
    rw [skipSpace, List.dropWhile_cons_of_pos hc]
    exact ih

/-- What is no white space is not passed over. -/
theorem skipSpace_cons {c : Char} (h : isPlainSpace c = false) (s : Text) :
    skipSpace (c :: s) = c :: s := List.dropWhile_cons_of_neg (by simp [h])

theorem Space.skipSpace_eq_cons {s rest : Text} {c : Char} (h : Space s (c :: rest))
    (hc : isPlainSpace c = false := by decide) : skipSpace s = c :: rest := by
  rw [h.skipSpace_eq, skipSpace_cons hc]

theorem stops_cons {c : Char} {s : Text}
    (h : isPlainSpace c = true ∨ c = ',' ∨ c = ']' ∨ c = '}') : Stops (c :: s) := by
  intro d hd
  cases hd
  exact h

/-- White space stops a value, and so does what is behind white space. -/
theorem Space.stops {s t : Text} (h : Space s t) (ht : Stops t) : Stops s := by
  cases h with
  | none => exact ht
  | char hc _ => exact stops_cons (Or.inl hc)

theorem stops_nil : Stops [] := nofun

theorem isPlainSpace_closing (k : Container) : isPlainSpace k.closing = false := by
  cases k <;> decide

theorem Space.stops_closing {k : Container} {s rest : Text} (h : Space s (k.closing :: rest)) :
    Stops s := by
  apply h.stops
  apply stops_cons
  cases k
  · exact Or.inr (Or.inr (Or.inl rfl))
  · exact Or.inr (Or.inr (Or.inr rfl))

theorem Space.stops_comma {s rest : Text} (h : Space s (',' :: rest)) : Stops s :=
  h.stops (stops_cons (Or.inr (Or.inl rfl)))

end MenuPages.Json
