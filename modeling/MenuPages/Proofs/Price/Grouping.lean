import MenuPages.Proofs.Price.TwoDecimals
import MenuPages.Proofs.Text.Words

/-!
# Amounts the Spanish way

The built-in pages show an amount in another form than templates do: a comma in place of the point,
points between groups of three digits, the sign of the currency behind. It is the same amount.

**The law** (`Price.format_local`), for every finite amount and every currency that is blank or
three letters: the number is that of `Price.fixed` for the magnitude, in the other form. From `10 ^
21` on, where `Price.fixed` goes over to an exponent, it is the whole number that the amount then
is, with all its digits. In the five currencies that have no cents it loses the zeros at its end,
and the comma if no decimal is left. The euro and the dollar have signs of their own, and any other
currency is named by its code.

Both forms come from the same number of hundredths, so what is to be shown is that the sign does not
matter for it (`fixed_abs`), that it is exact for large amounts (`exists_hundredths_of_huge`), and
where the points stand (`standsInThrees_grouped`).
-/

namespace MenuPages.Price

/-! ## Groups of three digits -/

/-- Digits in groups of three counted from the right, with a point in front of each group of three
but never in front of all digits. -/
def InThrees (digits s : Text) : Prop :=
  ∃ (lead : Text) (groups : List Text), lead ≠ [] ∧ lead.length ≤ 3 ∧
    (∀ g ∈ groups, g.length = 3) ∧ digits = lead ++ groups.flatten ∧
      s = lead ++ groups.flatMap ('.' :: ·)

/-- Digits are in groups if there are at least five of them, and as they are otherwise. -/
def StandsInThrees (digits s : Text) : Prop :=
  if 5 ≤ digits.length then InThrees digits s else s = digits

/-- Of digits with the last one in front, the groups come first. -/
theorem exists_groups {s : Text} (hne : s ≠ []) : ∃ (groups : List Text) (lead : Text),
    lead ≠ [] ∧ lead.length ≤ 3 ∧ (∀ g ∈ groups, g.length = 3) ∧ s = groups.flatten ++ lead ∧
      groupReversed s = groups.flatMap (· ++ ['.']) ++ lead := by
  fun_induction groupReversed s with
  | case1 a b c d s ih =>
    obtain ⟨groups, lead, hlead, hshort, hthree, hs, hgrouped⟩ := ih (List.cons_ne_nil d s)
    refine ⟨[a, b, c] :: groups, lead, hlead, hshort, ?_, ?_, ?_⟩
    · rintro g (_ | ⟨_, hg⟩)
      · rfl
      · exact hthree g hg
    · rw [hs]
      rfl
    · rw [hgrouped]
      rfl
  | case2 s hshort =>
    refine ⟨[], s, hne, ?_, nofun, rfl, rfl⟩
    match s, hshort with
    | [], _ | [_], _ | [_, _], _ | [_, _, _], _ => simp
    | a :: b :: c :: d :: s, hshort => exact (hshort a b c d s rfl).elim

theorem standsInThrees_grouped (digits : Text) : StandsInThrees digits (grouped digits) := by
  rw [StandsInThrees, grouped]
  by_cases hlong : 5 ≤ digits.length
  · have hne : digits.reverse ≠ [] := by
      rw [Ne, List.reverse_eq_nil_iff]
      rintro rfl
      exact absurd hlong (by decide)
    obtain ⟨groups, lead, hlead, hshort, hthree, hdigits, hgrouped⟩ := exists_groups hne
    rw [if_pos hlong, if_neg (Nat.not_lt.mpr hlong), hgrouped]
    refine ⟨lead.reverse, (groups.map List.reverse).reverse, ?_, ?_, ?_, ?_, ?_⟩
    · rwa [Ne, List.reverse_eq_nil_iff]
    · rwa [List.length_reverse]
    · intro g hg
      obtain ⟨g', hg', rfl⟩ := List.mem_map.mp (List.mem_reverse.mp hg)
      rw [List.length_reverse, hthree g' hg']
    · rw [← List.reverse_reverse digits, hdigits, List.reverse_append, List.reverse_flatten]
    · rw [List.reverse_append, List.reverse_flatMap, ← List.map_reverse, List.flatMap_map]
      simp [Function.comp_def]
  · rw [if_neg hlong, if_pos (Nat.not_le.mp hlong)]

/-- Digits are left if the points are taken away. -/
theorem StandsInThrees.filter {digits s : Text} (h : StandsInThrees digits s)
    (hdigits : '.' ∉ digits) : s.filter (· != '.') = digits := by
  have hkeep {t : Text} (ht : '.' ∉ t) : t.filter (· != '.') = t := by
    rw [List.filter_eq_self]
    intro c hc
    rw [bne_iff_ne]
    rintro rfl
    exact ht hc
  rw [StandsInThrees] at h
  split at h
  · obtain ⟨lead, groups, -, -, -, rfl, rfl⟩ := h
    rw [List.mem_append, not_or] at hdigits
    rw [List.filter_append, hkeep hdigits.1, List.filter_flatMap, List.flatten_eq_flatMap]
    congr 1
    apply List.flatMap_congr
    intro g hg
    exact hkeep fun hpoint => hdigits.2 (List.mem_flatten.mpr ⟨g, hg, hpoint⟩)
  · rw [h, hkeep hdigits]

/-! ## Zeros at the end -/

/-- The text `t` is `s` without the zeros at its end. -/
def WithoutZeros (s t : Text) : Prop :=
  (∃ k, s = t ++ List.replicate k '0') ∧ t.getLast? ≠ some '0'

theorem withoutZeros_dropTrailingZeros (s : Text) : WithoutZeros s (dropTrailingZeros s) := by
  have hzeros : s.reverse.takeWhile (· == '0') =
      List.replicate (s.reverse.takeWhile (· == '0')).length '0' := by
    rw [List.eq_replicate_iff]
    exact ⟨rfl, fun c hc => by simpa using List.all_eq_true.mp List.all_takeWhile c hc⟩
  constructor
  · refine ⟨(s.reverse.takeWhile (· == '0')).length, ?_⟩
    rw [dropTrailingZeros, ← List.reverse_replicate, ← hzeros, ← List.reverse_append,
      List.takeWhile_append_dropWhile, List.reverse_reverse]
  · rw [dropTrailingZeros, List.getLast?_reverse]
    intro hzero
    have := List.head?_dropWhile_not (· == '0') s.reverse
    rw [hzero] at this
    simp at this

/-! ## The magnitude -/

section Magnitude

variable {x : Binary64}

/-- An amount of `10 ^ 21` and more is whole, and so its hundredths are exact. -/
theorem exists_hundredths_of_huge (hhuge : 10 ^ 21 ≤ x.magnitude) :
    ∃ n : ℕ, x.magnitude = n ∧ hundredths x = 100 * n := by
  obtain ⟨n, hn⟩ := Binary64.exists_natCast_of_le (le_trans (by norm_num) hhuge)
  have hbetween : ¬ isBetween x := by
    rw [isBetween, Bool.and_eq_true, Binary64.isHalf_iff]
    rintro ⟨-, b, hb⟩
    exact magnitude_scaled_ne_half (by linarith) b hb
  have hnear := x.nearest_roundHundredths .toEven
  rw [hn, show (100 * (n : ℚ)) = ((100 * n : ℕ) : ℤ) by push_cast; rfl] at hnear
  refine ⟨n, hn, ?_⟩
  rw [hundredths, if_neg hbetween]
  exact_mod_cast hnear.eq_of_intCast

/-- Without its sign an amount below `10 ^ 21` is written with the hundredths of its magnitude. -/
theorem fixed_abs (hfinite : x.isFinite) (hsmall : x.magnitude < 10 ^ 21) :
    fixed x.abs = Digits.hundredths (hundredths x) := by
  have hnonneg := x.magnitude_nonneg
  have hsmall' : |x.abs.toRat| < 10 ^ 21 := by
    rwa [Binary64.toRat_abs, abs_of_nonneg hnonneg]
  have hsame : hundredths x.abs = hundredths x := by
    have hnear := nearest_hundredths hsmall
    have hnear' := nearest_hundredths (x := x.abs) (by rwa [x.magnitude_abs])
    rw [x.magnitude_abs] at hnear'
    exact_mod_cast hnear'.unique hnear
  rw [fixed_eq (x.isFinite_abs.trans hfinite) hsmall', hsame, Binary64.toRat_abs]
  split
  · next hzero =>
    have hnear := nearest_hundredths hsmall
    rw [hzero, mul_zero] at hnear
    have hnone : hundredths x = 0 := by exact_mod_cast hnear.eq_of_intCast (k := 0)
    rw [hnone]
    rfl
  · rw [if_neg (not_lt.mpr hnonneg)]

/-- The digits of a magnitude in front of the point and the two behind it: those of `fixed`, and
from `10 ^ 21` on those of the whole number and two zeros. -/
def MagnitudeDigits (x : Binary64) (whole decimals : Text) : Prop :=
  (∀ c ∈ whole ++ decimals, c.isDigit) ∧ decimals.length = 2 ∧
    (|x.toRat| < 10 ^ 21 → fixed x.abs = whole ++ '.' :: decimals) ∧
    (10 ^ 21 ≤ |x.toRat| →
      ∃ n : ℕ, |x.toRat| = n ∧ whole = Nat.toDigits 10 n ∧ decimals = "00".toList)

theorem exists_magnitudeDigits (hfinite : x.isFinite) : ∃ whole decimals,
    Digits.hundredths (hundredths x) = whole ++ '.' :: decimals ∧
      MagnitudeDigits x whole decimals := by
  refine ⟨_, _, Digits.hundredths.eq_1 _, ?_⟩
  rw [MagnitudeDigits, x.abs_toRat]
  refine ⟨?_, ?_, fun hsmall => ?_, fun hhuge => ?_⟩
  · intro c hc
    rw [List.mem_append, List.mem_append] at hc
    rcases hc with hc | hc | hc <;> exact Digits.isDigit_of_mem_ofNat hc
  · rw [Digits.ofNat_of_lt (by omega), Digits.ofNat_of_lt (by omega)]
    rfl
  · rw [fixed_abs hfinite hsmall, Digits.hundredths]
  · obtain ⟨n, hn, hexact⟩ := exists_hundredths_of_huge hhuge
    refine ⟨n, hn, ?_, ?_⟩
    · rw [hexact, Nat.mul_div_cancel_left n (by decide), Digits.ofNat]
    · rw [hexact, Nat.mul_mod_right, show 100 * n % 10 = 0 by omega]
      rfl

end Magnitude

/-! ## The whole form -/

/-- A number with the points taken away and a point for the comma. -/
def withPoint (number : Text) : Text :=
  (number.filter (· != '.')).map fun c => if c = ',' then '.' else c

/-- Two parts of a number and what is put between them, if there is a second one. -/
def joinedBy (mark : Char) (whole decimals : Text) : Text :=
  whole ++ if decimals = [] then [] else mark :: decimals

theorem withPoint_joinedBy {whole points decimals : Text} (hpoints : StandsInThrees whole points)
    (hwhole : ∀ c ∈ whole, c.isDigit) (hdecimals : ∀ c ∈ decimals, c.isDigit) :
    withPoint (joinedBy ',' points decimals) = joinedBy '.' whole decimals := by
  have hnot {s : Text} (hs : ∀ c ∈ s, c.isDigit) {d : Char} (hd : d.isDigit = false) : d ∉ s :=
    fun hmem => Text.ne_of_class (hs d hmem) hd rfl
  have hsame {s : Text} (hs : ∀ c ∈ s, c.isDigit) :
      (s.map fun c => if c = ',' then '.' else c) = s := by
    have hcomma : ∀ c ∈ s, c ≠ ',' := fun c hc => Text.ne_of_class (hs c hc) (by decide)
    rw [List.map_congr_left fun c hc => if_neg (hcomma c hc), List.map_id']
  have hkeep : decimals.filter (· != '.') = decimals := by
    rw [List.filter_eq_self]
    exact fun c hc => bne_iff_ne.mpr (Text.ne_of_class (hdecimals c hc) (by decide))
  rw [withPoint, joinedBy, joinedBy, List.filter_append, hpoints.filter (hnot hwhole (by decide)),
    List.map_append, hsame hwhole]
  split
  · rfl
  · rw [List.filter_cons_of_pos (by decide), hkeep, List.map_cons, if_pos rfl, hsame hdecimals]

theorem WithoutZeros.isDigit {s t : Text} (h : WithoutZeros s t) (hs : ∀ c ∈ s, c.isDigit) :
    ∀ c ∈ t, c.isDigit := by
  obtain ⟨⟨k, rfl⟩, -⟩ := h
  exact (List.forall_mem_append.mp hs).1

/-- A number that shows the magnitude of an amount the Spanish way: the whole ones in groups, a
comma and the decimals, or what is left of these without the zeros at their end. With a point for
the comma and without the others it is the number that `MagnitudeDigits` describes. -/
def ShowsMagnitude (x : Binary64) (trimmed : Bool) (number : Text) : Prop :=
  ∃ whole decimals shown points, MagnitudeDigits x whole decimals ∧
    (if trimmed then WithoutZeros decimals shown else shown = decimals) ∧
    StandsInThrees whole points ∧ number = joinedBy ',' points shown ∧
    withPoint number = joinedBy '.' whole shown

/-- The number of an amount is that of its hundredths: the whole ones in groups, a comma and the
decimals that are shown. -/
theorem localNumber_eq (code : Text) (x : Binary64) {whole decimals : Text}
    (hparts : Digits.hundredths (hundredths x) = whole ++ '.' :: decimals)
    (hwhole : ∀ c ∈ whole, c.isDigit) :
    localNumber code x = joinedBy ',' (grouped whole)
      (if wholeCurrencies.contains code then dropTrailingZeros decimals else decimals) := by
  have hnone : ∀ c ∈ whole, (c != '.') = true :=
    fun c hc => bne_iff_ne.mpr (Text.ne_of_class (hwhole c hc) (by decide))
  have htake := Text.takeWhile_append_cons hnone (c := '.') (by decide) decimals
  have hdrop := Text.dropWhile_append_cons hnone (c := '.') (by decide) decimals
  rw [localNumber, hparts, htake, hdrop]
  simp only [List.drop_succ_cons, List.drop_zero, List.isEmpty_iff, joinedBy]
  generalize (if wholeCurrencies.contains code then dropTrailingZeros decimals else decimals) =
    shown
  split
  · rw [List.append_nil]
  · rfl

theorem showsMagnitude_localNumber {x : Binary64} (hfinite : x.isFinite) (code : Text) :
    ShowsMagnitude x (wholeCurrencies.contains code) (localNumber code x) := by
  obtain ⟨whole, decimals, hparts, hnumber⟩ := exists_magnitudeDigits hfinite
  obtain ⟨hwhole, hdecimals⟩ := List.forall_mem_append.mp hnumber.1
  have hgroups := standsInThrees_grouped whole
  have hlocal := localNumber_eq code x hparts hwhole
  rw [ShowsMagnitude, hlocal]
  by_cases hcode : wholeCurrencies.contains code
  · simp only [if_pos hcode]
    have hshown := withoutZeros_dropTrailingZeros decimals
    exact ⟨whole, decimals, _, _, hnumber, hshown, hgroups, rfl,
      withPoint_joinedBy hgroups hwhole (hshown.isDigit hdecimals)⟩
  · simp only [if_neg hcode]
    exact ⟨whole, decimals, _, _, hnumber, rfl, hgroups, rfl,
      withPoint_joinedBy hgroups hwhole hdecimals⟩

/-- The euro and the dollar have signs of their own. -/
theorem symbol_eq (code : Text) :
    symbol code =
      if code = "EUR".toList then "€".toList
      else if code = "USD".toList then "US$".toList
      else code := by
  simp only [symbol, beq_iff_eq]
  rfl

/-- Behind a blank currency, which is the euro, and behind three letters a finite amount is shown
the Spanish way. -/
theorem format_eq {x : Binary64} (hfinite : x.isFinite) {currency : Text}
    (hcurrency : currency.all Text.isBlank ∨ currency.length = 3 ∧ ∀ c ∈ currency, c.isAlpha) :
    let code := if currency.all Text.isBlank then "EUR".toList else currency.map Char.toUpper
    format x currency =
      signed x.isNegative (localNumber code x) ++ '\u00a0' :: symbol code := by
  intro code
  have hnumber (c : Text) :
      signed (x.isNegative && !x.isNaN)
        (if x.isNaN then "NaN".toList else if x.isInfinite then ['∞'] else localNumber c x) =
      signed x.isNegative (localNumber c x) := by
    simp [Binary64.isNaN_eq_false hfinite, Binary64.isInfinite_eq_false hfinite]
  rw [format, Text.allBlank]
  by_cases hblank : currency.all Text.isBlank
  · have heuro : "EUR".toList.map Char.toUpper = "EUR".toList := rfl
    simp only [code, if_pos hblank, hnumber, heuro]
    rfl
  · obtain ⟨hlength, halpha⟩ := hcurrency.resolve_left hblank
    have hcode : isCode currency := by
      rw [isCode, Bool.and_eq_true, beq_iff_eq, List.all_eq_true]
      exact ⟨hlength, halpha⟩
    simp only [code, if_neg hblank, if_pos hcode, hnumber]

/-- **The Spanish way.** A finite amount of a currency that is blank or three letters is shown as a
minus sign if the sign bit is set, a number and the sign of the currency behind a space that does
not break. The number shows the magnitude as `Price.fixed` does, but for the comma and the points
between groups of three digits, and in five currencies without the zeros at its end. -/
theorem format_local (x : Binary64) (hfinite : x.isFinite) (currency : Text)
    (hcurrency : currency.all Text.isBlank ∨ currency.length = 3 ∧ ∀ c ∈ currency, c.isAlpha) :
    let code := if currency.all Text.isBlank then "EUR".toList else currency.map Char.toUpper
    let trimmed :=
      ["CLP".toList, "ISK".toList, "JPY".toList, "KRW".toList, "VND".toList].contains code
    let sign :=
      if code = "EUR".toList then "€".toList
      else if code = "USD".toList then "US$".toList
      else code
    ∃ number, ShowsMagnitude x trimmed number ∧
      format x currency =
        (if x.isNegative then ['-'] else []) ++ number ++ '\u00a0' :: sign := by
  intro code trimmed sign
  refine ⟨localNumber code x, showsMagnitude_localNumber hfinite code, ?_⟩
  rw [format_eq hfinite hcurrency, symbol_eq, signed]
  split <;> rfl

/-- Yen and dollars that are rounded up to another digit, and an amount of no currency from which on
`Price.fixed` has an exponent. -/
theorem format_local_yen :
    let x : Binary64 := ⟨0xC0F869FFEF9DB22D⟩
    let y : Binary64 := ⟨0x444B1AE4D6E2EF50⟩
    let sextillion := "1.000.000.000.000.000.000.000,00".toList
    x.isFinite ∧ y.isFinite ∧
      ("jpy".toList.all Text.isBlank ∨ "jpy".toList.length = 3 ∧ ∀ c ∈ "jpy".toList, c.isAlpha) ∧
      ("usd".toList.all Text.isBlank ∨ "usd".toList.length = 3 ∧ ∀ c ∈ "usd".toList, c.isAlpha) ∧
      ([' '].all Text.isBlank ∨ [' '].length = 3 ∧ ∀ c ∈ [' '], c.isAlpha) ∧
      ShowsMagnitude x true "100.000".toList ∧
      format x "jpy".toList = "-100.000\u00a0JPY".toList ∧
      ShowsMagnitude x false "100.000,00".toList ∧
      format x "usd".toList = "-100.000,00\u00a0US$".toList ∧
      ShowsMagnitude y false sextillion ∧
      format y [' '] = sextillion ++ "\u00a0€".toList := by
  intro x y sextillion
  have hx : x.isFinite := by decide +kernel
  have hy : y.isFinite := by decide +kernel
  have hletters (s : Text) (hlength : s.length = 3) (halpha : s.all Char.isAlpha = true) :
      s.all Text.isBlank ∨ s.length = 3 ∧ ∀ c ∈ s, c.isAlpha :=
    Or.inr ⟨hlength, List.all_eq_true.1 halpha⟩
  have hjpy := hletters "jpy".toList rfl (by decide)
  have husd := hletters "usd".toList rfl (by decide)
  have hblank : [' '].all Text.isBlank ∨ [' '].length = 3 ∧ ∀ c ∈ [' '], c.isAlpha :=
    Or.inl (by decide)
  have hyen : format x "jpy".toList = '-' :: ("100.000".toList ++ "\u00a0JPY".toList) := by
    decide +kernel
  have hdollars : format x "usd".toList = '-' :: ("100.000,00".toList ++ "\u00a0US$".toList) := by
    decide +kernel
  have heuros : format y [' '] = sextillion ++ "\u00a0€".toList := by decide +kernel
  obtain ⟨yen, hyenShows, hyenEq⟩ := format_local x hx "jpy".toList hjpy
  obtain ⟨dollars, hdollarsShows, hdollarsEq⟩ := format_local x hx "usd".toList husd
  obtain ⟨euros, heurosShows, heurosEq⟩ := format_local y hy [' '] hblank
  -- what stands in front of a number and behind it is known, and so the number is
  have hyenNumber := List.append_cancel_right (List.cons.inj (hyen.symm.trans hyenEq)).2
  have hdollarsNumber :=
    List.append_cancel_right (List.cons.inj (hdollars.symm.trans hdollarsEq)).2
  have heurosNumber := List.append_cancel_right (heuros.symm.trans heurosEq)
  exact ⟨hx, hy, hjpy, husd, hblank, hyenNumber ▸ hyenShows, hyen, hdollarsNumber ▸ hdollarsShows,
    hdollars, heurosNumber ▸ heurosShows, heuros⟩

end MenuPages.Price
