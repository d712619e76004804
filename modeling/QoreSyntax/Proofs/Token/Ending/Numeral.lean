import Mathlib.Data.List.Basic
import Mathlib.Data.List.Find
import QoreSyntax.Proofs.Token.Ending.Part

namespace QoreSyntax.Token

theorem nameGoesOn_append (text rest : List Char) :
    nameGoesOn (text ++ '\n' :: rest) = nameGoesOn text :=
  any_head?_append_lineEnd (by decide) text rest

theorem local_leadingDigits : Local leadingDigits :=
  .takeWhile (by decide)

theorem local_clock : Local clock :=
  .takeWhile (by decide)

theorem fraction_of_ne {c : Char} (hc : c ≠ '.') (text : List Char) :
    fraction (c :: text) = [] := by
  rw [fraction.eq_def]
  split
  · rename_i htext
    exact absurd (List.cons.inj htext).1 hc
  · rfl

theorem local_fraction : Local fraction where
  isPrefix text := by
    rw [fraction.eq_def]
    split
    · split_ifs
      · exact List.nil_prefix
      · exact List.cons_prefix_cons.mpr ⟨rfl, local_leadingDigits.isPrefix _⟩
    · exact List.nil_prefix
  append_eq text rest := by
    rcases text with - | ⟨c, text⟩
    · rfl
    · rw [List.cons_append]
      by_cases hc : c = '.'
      · rw [hc, fraction, fraction, local_leadingDigits.append_eq]
      · rw [fraction_of_ne hc, fraction_of_ne hc]

theorem local_sign :
    Local fun text => (text.take 1).filter fun c => c == '+' || c == '-' where
  isPrefix text := by
    rcases text with - | ⟨c, text⟩
    · exact List.nil_prefix
    · rw [List.take_succ_cons, List.take_zero, List.filter_singleton, Bool.cond_eq_ite]
      split_ifs
      · exact List.prefix_append [c] text
      · exact List.nil_prefix
  append_eq text rest := by
    cases text <;> rfl

theorem local_exponent : Local exponent where
  isPrefix text := by
    rcases text with - | ⟨e, text⟩
    · exact List.nil_prefix
    · simp only [exponent]
      split_ifs
      · exact List.nil_prefix
      · exact List.cons_prefix_cons.mpr
          ⟨rfl, (local_sign.append local_leadingDigits).isPrefix text⟩
      · exact List.nil_prefix
  append_eq text rest := by
    rcases text with - | ⟨e, text⟩
    · rfl
    · simp only [List.cons_append, exponent, local_sign.append_eq text rest,
        local_sign.drop_eq text rest, local_leadingDigits.append_eq]

theorem pairBefore_append {mark : Char} (hmark : mark ≠ '\n') (text rest : List Char) :
    pairBefore mark (text ++ '\n' :: rest) = pairBefore mark text := by
  have hdigit : ('\n').isDigit = false := by decide
  have hne : ('\n' == mark) = false := beq_eq_false_iff_ne.mpr hmark.symm
  rcases text with - | ⟨a, - | ⟨b, - | ⟨c, text⟩⟩⟩
  · rcases rest with - | ⟨b, - | ⟨c, rest⟩⟩ <;> simp [pairBefore, hdigit]
  · rcases rest with - | ⟨b, rest⟩ <;> simp [pairBefore, hdigit]
  · simp [pairBefore, hne]
  · rfl

theorem length_of_pairBefore {mark : Char} {text : List Char} (h : pairBefore mark text = true) :
    3 ≤ text.length := by
  rw [pairBefore.eq_def] at h
  split at h
  · simp
  · cases h

theorem monthAndDayFollow_of_ne {c : Char} (hc : c ≠ '-') (text : List Char) :
    monthAndDayFollow (c :: text) = false := by
  rw [monthAndDayFollow.eq_def]
  split
  · rename_i htext
    exact absurd (List.cons.inj htext).1 hc
  · rfl

theorem twoDigits_append (text rest : List Char) :
    (((text ++ '\n' :: rest).take 2).length == 2
        && ((text ++ '\n' :: rest).take 2).all Char.isDigit)
      = ((text.take 2).length == 2 && (text.take 2).all Char.isDigit) := by
  have hdigit : ('\n').isDigit = false := by decide
  rcases text with - | ⟨a, - | ⟨b, text⟩⟩
  · rcases rest with - | ⟨b, rest⟩ <;> simp [hdigit]
  · simp [hdigit]
  · simp

theorem monthAndDayFollow_append (text rest : List Char) :
    monthAndDayFollow (text ++ '\n' :: rest) = monthAndDayFollow text := by
  rcases text with - | ⟨c, text⟩
  · rfl
  · rw [List.cons_append]
    by_cases hc : c = '-'
    · rw [hc, monthAndDayFollow, monthAndDayFollow, pairBefore_append (by decide)]
      cases hpair : pairBefore '-' text with
      | false => rfl
      | true =>
          rw [List.drop_append_of_le_length (length_of_pairBefore hpair), Bool.true_and,
            Bool.true_and, twoDigits_append]
    · rw [monthAndDayFollow_of_ne hc, monthAndDayFollow_of_ne hc]

theorem length_of_monthAndDayFollow {text : List Char} (h : monthAndDayFollow text = true) :
    4 ≤ text.length := by
  rcases text with - | ⟨c, text⟩
  · cases h
  · by_cases hc : c = '-'
    · rw [hc, monthAndDayFollow, Bool.and_eq_true, Bool.and_eq_true] at h
      exact Nat.succ_le_succ (length_of_pairBefore h.1.1)
    · rw [monthAndDayFollow_of_ne hc] at h
      cases h

theorem zoneLength_of_ne {c : Char} (hc : c ≠ 'Z') (text : List Char) :
    zoneLength (c :: text) =
      if (c == '+' || c == '-') && pairBefore ':' text then 1 + (clock text).length else 0 := by
  rw [zoneLength.eq_def]
  split
  · rename_i htext
    exact absurd (List.cons.inj htext).1 hc
  · rename_i htext
    obtain ⟨rfl, rfl⟩ := List.cons.inj htext
    rfl
  · rename_i htext
    cases htext

theorem zoneLength_append (text rest : List Char) :
    zoneLength (text ++ '\n' :: rest) = zoneLength text := by
  rcases text with - | ⟨c, text⟩
  · rfl
  · rw [List.cons_append]
    by_cases hc : c = 'Z'
    · rw [hc]
      rfl
    · rw [zoneLength_of_ne hc, zoneLength_of_ne hc, pairBefore_append (by decide),
        local_clock.append_eq]

theorem zoneLength_le (text : List Char) : zoneLength text ≤ text.length := by
  rcases text with - | ⟨c, text⟩
  · rfl
  · have hclock := local_clock.length_le text
    rw [List.length_cons]
    by_cases hc : c = 'Z'
    · rw [hc]
      exact Nat.succ_le_succ (Nat.zero_le _)
    · rw [zoneLength_of_ne hc]
      split_ifs <;> omega

theorem timeLength_append (text rest : List Char) :
    timeLength (text ++ '\n' :: rest) = timeLength text := by
  rcases text with - | ⟨c, text⟩
  · rfl
  · simp only [List.cons_append, timeLength, pairBefore_append (show ':' ≠ '\n' by decide),
      local_clock.append_eq, local_clock.drop_eq, local_fraction.append_eq, local_fraction.drop_eq,
      zoneLength_append]

theorem timeLength_le (text : List Char) : timeLength text ≤ text.length := by
  rcases text with - | ⟨c, text⟩
  · rfl
  · have hclock := local_clock.length_le text
    have hparts := local_fraction.length_le (text.drop (clock text).length)
    have hzone := zoneLength_le ((text.drop (clock text).length).drop
      (fraction (text.drop (clock text).length)).length)
    simp only [List.length_drop] at hparts hzone
    simp only [timeLength, List.length_cons]
    split_ifs <;> omega

theorem endsIn_absoluteDate {text : List Char} (htext : 8 ≤ text.length) :
    EndsIn 0 absoluteDate text := by
  have hdays := local_leadingDigits.length_le (text.drop 8)
  have htime := timeLength_le (text.drop (8 + (leadingDigits (text.drop 8)).length))
  rw [List.length_drop] at hdays htime
  constructor
  · simp only [absoluteDate]
    omega
  · intro rest
    simp only [absoluteDate, List.drop_append_of_le_length htext, local_leadingDigits.append_eq]
    rw [List.drop_append_of_le_length (by omega), timeLength_append,
      List.take_append_of_le_length (by omega)]

theorem endsIn_hexadecimal (text : List Char) : EndsIn 2 hexadecimal text := by
  have hdigits : Local (List.takeWhile isHexDigit) := .takeWhile (by decide)
  have hlength := hdigits.length_le text
  constructor
  · rw [hexadecimal]
    split_ifs
    · exact Nat.le_add_right _ _
    · exact Nat.add_le_add_left hlength 2
  · intro rest
    rw [hexadecimal, hexadecimal, hdigits.append_eq]

theorem durationUnit?_append (text rest : List Char) :
    durationUnit? (text ++ '\n' :: rest) = durationUnit? text := by
  have hunits : ∀ unit ∈ durationUnits, '\n' ∉ unit := by decide
  have hfind : durationUnits.find? (·.isPrefixOf (text ++ '\n' :: rest))
      = durationUnits.find? (·.isPrefixOf text) :=
    List.find?_congr fun unit hunit => isPrefixOf_append_lineEnd (hunits unit hunit) text rest
  rw [durationUnit?, durationUnit?, hfind]
  cases hunit : durationUnits.find? (·.isPrefixOf text) with
  | none => rfl
  | some unit =>
      have hprefix : unit <+: text := List.isPrefixOf_iff_prefix.mp
        (List.find?_some (p := fun other : List Char => other.isPrefixOf text) hunit)
      rw [Option.filter_some, Option.filter_some,
        List.drop_append_of_le_length hprefix.length_le, nameGoesOn_append]

theorem prefix_of_durationUnit? {text unit : List Char} (h : durationUnit? text = some unit) :
    unit ∈ durationUnits ∧ unit <+: text := by
  have hfind : durationUnits.find? (·.isPrefixOf text) = some unit :=
    Option.eq_some_of_filter_eq_some h
  constructor
  · exact List.mem_of_find?_eq_some hfind
  · exact List.isPrefixOf_iff_prefix.mp
      (List.find?_some (p := fun other : List Char => other.isPrefixOf text) hfind)

/-- The letter that ends a number of any precision stands on the line of the number. -/
theorem precision_append (text rest : List Char) :
    ((text ++ '\n' :: rest).head? == some 'n' && !nameGoesOn ((text ++ '\n' :: rest).drop 1))
      = (text.head? == some 'n' && !nameGoesOn (text.drop 1)) := by
  rcases text with - | ⟨c, text⟩
  · rfl
  · have hgoesOn := nameGoesOn_append text rest
    simp [hgoesOn]

/-- The number with the given parts, behind which the text goes on with `rest`, perhaps with a
suffix that belongs to the number. -/
def suffixed (whole places power rest : List Char) : Lexeme :=
  let length := whole.length + places.length + power.length
  let spelling := whole ++ places ++ (if power.isEmpty then [] else 'e' :: power.drop 1)
  if rest.head? == some 'n' && !nameGoesOn (rest.drop 1) then
    ⟨.number (String.ofList spelling), length + 1⟩
  else if places.isEmpty && power.isEmpty then
    match durationUnit? rest with
    | some unit => ⟨.date (String.ofList (whole ++ unit)), length + unit.length⟩
    | none => ⟨integerKind (numberOf 10 whole) whole, length⟩
  else
    let digits := numberOf 10 (whole ++ places.drop 1)
    let scale := exponentValue power - ((places.drop 1).length : Int)
    ⟨.float (Binary64.ofDecimal ⟨digits, scale⟩), length⟩

theorem decimal_eq (text : List Char) :
    let whole := leadingDigits text
    let places := fraction (text.drop whole.length)
    let power := exponent (text.drop (whole.length + places.length))
    decimal text = suffixed whole places power
      (text.drop (whole.length + places.length + power.length)) :=
  rfl

theorem endsIn_suffixed (whole places power text : List Char) :
    EndsIn (whole.length + places.length + power.length) (suffixed whole places power) text where
  length_le := by
    simp only [suffixed]
    split
    · rename_i hsuffix
      have hpos : 0 < text.length := by
        refine List.length_pos_iff.mpr fun hnil => ?_
        simp [hnil] at hsuffix
      exact Nat.add_le_add_left hpos _
    · split
      · split
        · rename_i hunit
          exact Nat.add_le_add_left (prefix_of_durationUnit? hunit).2.length_le _
        · exact Nat.le_add_right _ _
      · exact Nat.le_add_right _ _
  append_eq rest := by
    simp only [suffixed, precision_append, durationUnit?_append]

theorem endsIn_decimal (text : List Char) : EndsIn 0 decimal text := by
  obtain ⟨whole, hwhole⟩ : ∃ whole, leadingDigits text = whole := ⟨_, rfl⟩
  obtain ⟨places, hplaces⟩ : ∃ places, fraction (text.drop whole.length) = places := ⟨_, rfl⟩
  obtain ⟨power, hpower⟩ :
    ∃ power, exponent (text.drop (whole.length + places.length)) = power := ⟨_, rfl⟩
  have hwhole_le : whole.length ≤ text.length := hwhole ▸ local_leadingDigits.length_le text
  have hplaces_le := hplaces ▸ local_fraction.length_le (text.drop whole.length)
  have hpower_le := hpower ▸ local_exponent.length_le (text.drop (whole.length + places.length))
  rw [List.length_drop] at hplaces_le hpower_le
  have hends := endsIn_suffixed whole places power
    (text.drop (whole.length + places.length + power.length))
  constructor
  · have hlength := hends.length_le
    rw [List.length_drop] at hlength
    rw [decimal_eq, hwhole, hplaces, hpower]
    omega
  · intro rest
    rw [decimal_eq, decimal_eq, local_leadingDigits.append_eq, hwhole,
      List.drop_append_of_le_length hwhole_le, local_fraction.append_eq, hplaces,
      List.drop_append_of_le_length (by omega), local_exponent.append_eq, hpower,
      List.drop_append_of_le_length (by omega), hends.append_eq]

/-- The text begins with the mark of a hexadecimal integer. -/
def opensHexadecimal (text : List Char) : Bool :=
  text.head? == some '0' && (text.drop 1).head?.any fun c => c == 'x' || c == 'X'

theorem opensHexadecimal_append {text : List Char} (htext : text ≠ []) (rest : List Char) :
    opensHexadecimal (text ++ '\n' :: rest) = opensHexadecimal text := by
  obtain ⟨c, cs, rfl⟩ := List.exists_cons_of_ne_nil htext
  have hmark := any_head?_append_lineEnd (p := fun c => c == 'x' || c == 'X') (by decide) cs rest
  exact congrArg (some c == some '0' && ·) hmark

theorem two_le_of_opensHexadecimal {text : List Char} (h : opensHexadecimal text = true) :
    2 ≤ text.length := by
  rcases text with - | ⟨c, - | ⟨d, text⟩⟩
  · cases h
  · simp [opensHexadecimal] at h
  · simp

theorem numeral_eq (text : List Char) : numeral text =
    if opensHexadecimal text then hexadecimal (text.drop 2)
    else if (leadingDigits text).length == 4 && monthAndDayFollow (text.drop 4) then
      absoluteDate text
    else decimal text :=
  rfl

theorem endsIn_numeral {text : List Char} (htext : text ≠ []) : EndsIn 0 numeral text := by
  have hdate : ∀ rest, ((leadingDigits text).length == 4 &&
        monthAndDayFollow ((text ++ '\n' :: rest).drop 4))
      = ((leadingDigits text).length == 4 && monthAndDayFollow (text.drop 4)) := by
    intro rest
    by_cases hfour : (leadingDigits text).length = 4
    · have hle := local_leadingDigits.length_le text
      rw [List.drop_append_of_le_length (by omega), monthAndDayFollow_append]
    · rw [beq_eq_false_iff_ne.mpr hfour, Bool.false_and, Bool.false_and]
  by_cases hhex : opensHexadecimal text
  · refine ((endsIn_hexadecimal (text.drop 2)).drop (two_le_of_opensHexadecimal hhex)).of_eq ?_
      fun rest => ?_
    · rw [numeral_eq, if_pos hhex]
    · rw [numeral_eq, opensHexadecimal_append htext, if_pos hhex]
  by_cases hyear : (leadingDigits text).length == 4 && monthAndDayFollow (text.drop 4)
  · have height : 8 ≤ text.length := by
      have hfour := length_of_monthAndDayFollow (Bool.and_eq_true_iff.mp hyear).2
      rw [List.length_drop] at hfour
      omega
    refine (endsIn_absoluteDate height).of_eq ?_ fun rest => ?_
    · rw [numeral_eq, if_neg hhex, if_pos hyear]
    · rw [numeral_eq, opensHexadecimal_append htext, if_neg hhex, local_leadingDigits.append_eq,
        hdate, if_pos hyear]
  · refine (endsIn_decimal text).of_eq ?_ fun rest => ?_
    · rw [numeral_eq, if_neg hhex, if_neg hyear]
    · rw [numeral_eq, opensHexadecimal_append htext, if_neg hhex, local_leadingDigits.append_eq,
        hdate, if_neg hyear]

end QoreSyntax.Token
