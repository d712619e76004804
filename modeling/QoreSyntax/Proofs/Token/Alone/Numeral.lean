import QoreSyntax.Proofs.Token.Alone.Part
import QoreSyntax.Proofs.Token.Ending.Numeral

namespace QoreSyntax.Token

theorem intrinsic_leadingDigits : Intrinsic leadingDigits :=
  .takeWhile _

theorem intrinsic_clock : Intrinsic clock :=
  .takeWhile _

theorem intrinsic_fraction : Intrinsic fraction := by
  refine .of_cons rfl fun {c cs n} hlength => ?_
  by_cases hc : c = '.'
  · rw [hc, fraction] at hlength ⊢
    rw [fraction]
    split_ifs at hlength with hempty
    · have hdigits : (leadingDigits cs).length ≤ n := by
        rw [List.isEmpty_iff.mp hempty]
        exact Nat.zero_le n
      rw [intrinsic_leadingDigits.take_eq hdigits]
    · rw [intrinsic_leadingDigits.take_eq (Nat.le_of_succ_le_succ hlength)]
  · rw [fraction_of_ne hc, fraction_of_ne hc]

/-- An exponent that lacks its digits lacks them as well if the text ends before them. -/
theorem exponent_take {e : Char} {cs : List Char} {n : Nat}
    (hlength : (exponent (e :: cs)).length ≤ n + 1) :
    exponent (e :: cs.take n) = exponent (e :: cs) := by
  obtain ⟨sign, hsign⟩ : ∃ sign, (cs.take 1).filter (fun c => c == '+' || c == '-') = sign :=
    ⟨_, rfl⟩
  have hsign_le : sign.length ≤ 1 := by
    rw [← hsign]
    exact (List.length_filter_le _ _).trans (List.length_take_le 1 cs)
  by_cases he : e == 'e' || e == 'E'
  · simp only [exponent, hsign, if_pos he] at hlength ⊢
    rcases n with - | n
    · -- A single character is no exponent.
      split_ifs at hlength with hempty
      · rw [if_pos hempty]
        rfl
      · obtain ⟨-, hdigits⟩ : sign = [] ∧ leadingDigits (cs.drop sign.length) = [] := by
          simpa using hlength
        exact absurd (List.isEmpty_iff.mpr hdigits) hempty
    · have hsign' : ((cs.take (n + 1)).take 1).filter (fun c => c == '+' || c == '-') = sign := by
        rw [List.take_take, Nat.min_eq_left (Nat.le_add_left 1 n), hsign]
      have hdigits : (leadingDigits (cs.drop sign.length)).length ≤ n + 1 - sign.length := by
        split_ifs at hlength with hempty
        · rw [List.isEmpty_iff.mp hempty]
          exact Nat.zero_le _
        · rw [List.length_cons, List.length_append] at hlength
          omega
      rw [hsign', List.drop_take, intrinsic_leadingDigits.take_eq hdigits]
  · simp only [exponent, if_neg he]

theorem intrinsic_exponent : Intrinsic exponent :=
  .of_cons rfl exponent_take

theorem pairBefore_take {mark : Char} {n : Nat} (hn : 3 ≤ n) (text : List Char) :
    pairBefore mark (text.take n) = pairBefore mark text := by
  obtain ⟨n, rfl⟩ := Nat.exists_eq_add_of_le' hn
  rcases text with - | ⟨a, - | ⟨b, - | ⟨c, text⟩⟩⟩
  · rfl
  · rfl
  · rfl
  · rfl

theorem pairBefore_of_take {mark : Char} {n : Nat} {text : List Char}
    (h : pairBefore mark (text.take n) = true) : pairBefore mark text = true := by
  have hlength := (length_of_pairBefore h).trans (List.length_take_le n text)
  rwa [pairBefore_take hlength] at h

theorem three_le_clock {text : List Char} (h : pairBefore ':' text = true) :
    3 ≤ (clock text).length := by
  rw [pairBefore.eq_def] at h
  split at h
  · simp only [Bool.and_eq_true, beq_iff_eq] at h
    simp [clock, h]
  · cases h

theorem zoneLength_take {text : List Char} {n : Nat} (hn : zoneLength text ≤ n) :
    zoneLength (text.take n) = zoneLength text := by
  rcases text with - | ⟨c, cs⟩
  · rw [List.take_nil]
  rcases n with - | n
  · exact (Nat.le_zero.mp hn).symm
  rw [List.take_succ_cons]
  by_cases hc : c = 'Z'
  · rw [hc, zoneLength, zoneLength]
  · rw [zoneLength_of_ne hc] at hn ⊢
    rw [zoneLength_of_ne hc]
    by_cases hzone : (c == '+' || c == '-') && pairBefore ':' cs
    · rw [if_pos hzone] at hn ⊢
      obtain ⟨hsign, hpair⟩ := Bool.and_eq_true_iff.mp hzone
      have hthree := three_le_clock hpair
      rw [hsign, pairBefore_take (by omega), hpair, intrinsic_clock.take_eq (by omega)]
      rfl
    · rw [if_neg hzone, if_neg]
      intro hshort
      obtain ⟨hsign, hpair⟩ := Bool.and_eq_true_iff.mp hshort
      exact hzone (Bool.and_eq_true_iff.mpr ⟨hsign, pairBefore_of_take hpair⟩)

theorem timeLength_take {text : List Char} {n : Nat} (hn : timeLength text ≤ n) :
    timeLength (text.take n) = timeLength text := by
  rcases text with - | ⟨mark, cs⟩
  · rw [List.take_nil]
  rcases n with - | n
  · exact (Nat.le_zero.mp hn).symm
  rw [List.take_succ_cons]
  simp only [timeLength] at hn ⊢
  by_cases htime : (mark == 'T' || mark == '-') && pairBefore ':' cs
  · rw [if_pos htime] at hn ⊢
    obtain ⟨hmark, hpair⟩ := Bool.and_eq_true_iff.mp htime
    have hthree := three_le_clock hpair
    rw [hmark, pairBefore_take (by omega), hpair, intrinsic_clock.take_eq (by omega),
      List.drop_take, intrinsic_fraction.take_eq (by omega), List.drop_take,
      zoneLength_take (by omega)]
    rfl
  · rw [if_neg htime, if_neg]
    intro hshort
    obtain ⟨hmark, hpair⟩ := Bool.and_eq_true_iff.mp hshort
    exact htime (Bool.and_eq_true_iff.mpr ⟨hmark, pairBefore_of_take hpair⟩)

/-- A month, and a day of two digits at least. -/
theorem two_le_of_monthAndDayFollow {text : List Char} (h : monthAndDayFollow text = true) :
    2 ≤ (leadingDigits (text.drop 4)).length := by
  rw [monthAndDayFollow.eq_def] at h
  split at h
  · rename_i cs
    simp only [Bool.and_eq_true, beq_iff_eq] at h
    obtain ⟨⟨-, hlength⟩, hdigits⟩ := h
    have hday : ((cs.drop 3).take 2 ++ (cs.drop 3).drop 2).takeWhile Char.isDigit = _ :=
      List.takeWhile_append_of_pos (List.all_eq_true.mp hdigits)
    rw [List.take_append_drop] at hday
    rw [List.drop_succ_cons, leadingDigits, hday, List.length_append, hlength]
    exact Nat.le_add_right 2 _
  · cases h

theorem monthAndDayFollow_take {n : Nat} (hn : 6 ≤ n) (text : List Char) :
    monthAndDayFollow (text.take n) = monthAndDayFollow text := by
  obtain ⟨n, rfl⟩ := Nat.exists_eq_add_of_le' hn
  rcases text with - | ⟨c, cs⟩
  · rfl
  rw [List.take_succ_cons]
  by_cases hc : c = '-'
  · rw [hc, monthAndDayFollow, monthAndDayFollow, pairBefore_take (by omega), List.drop_take,
      List.take_take, Nat.min_eq_left (by omega)]
  · rw [monthAndDayFollow_of_ne hc, monthAndDayFollow_of_ne hc]

theorem six_le_of_monthAndDayFollow {text : List Char} (h : monthAndDayFollow text = true) :
    6 ≤ text.length := by
  have hdays := two_le_of_monthAndDayFollow h
  have hdays_le := local_leadingDigits.length_le (text.drop 4)
  rw [List.length_drop] at hdays_le
  omega

theorem monthAndDayFollow_of_take {n : Nat} {text : List Char}
    (h : monthAndDayFollow (text.take n) = true) : monthAndDayFollow text = true := by
  have hlength := (six_le_of_monthAndDayFollow h).trans (List.length_take_le n text)
  rwa [monthAndDayFollow_take hlength] at h

theorem readsAlone_absoluteDate (text : List Char) : ReadsAlone 0 absoluteDate text := by
  refine ⟨(absoluteDate text).length, (Nat.zero_add _).symm, ?_⟩
  obtain ⟨day, hday⟩ : ∃ day, 8 + (leadingDigits (text.drop 8)).length = day := ⟨_, rfl⟩
  have hlength : (absoluteDate text).length = day + timeLength (text.drop day) := by
    rw [absoluteDate, hday]
  have hdays : leadingDigits ((text.take (absoluteDate text).length).drop 8)
      = leadingDigits (text.drop 8) := by
    rw [List.drop_take]
    exact intrinsic_leadingDigits.take_eq (by omega)
  have htime : timeLength ((text.take (absoluteDate text).length).drop day)
      = timeLength (text.drop day) := by
    rw [List.drop_take]
    exact timeLength_take (by omega)
  rw [hlength] at hdays htime ⊢
  simp only [absoluteDate, hdays, hday, htime, List.take_take, Nat.min_self]

theorem readsAlone_hexadecimal (text : List Char) : ReadsAlone 2 hexadecimal text := by
  have hdigits : Intrinsic (List.takeWhile isHexDigit) := .takeWhile _
  refine ⟨(text.takeWhile isHexDigit).length, ?_, ?_⟩
  · rw [hexadecimal]
    split_ifs with hempty
    · rw [List.isEmpty_iff.mp hempty]
      rfl
    · rfl
  · rw [hexadecimal, hexadecimal, hdigits.take_eq le_rfl]

theorem durationUnit?_unit {unit : List Char} (h : unit ∈ durationUnits) :
    durationUnit? unit = some unit := by
  revert unit
  decide

theorem readsAlone_suffixed (whole places power rest : List Char) :
    ReadsAlone (whole.length + places.length + power.length) (suffixed whole places power)
      rest := by
  by_cases hsuffix : rest.head? == some 'n' && !nameGoesOn (rest.drop 1)
  · obtain ⟨hhead, -⟩ := Bool.and_eq_true_iff.mp hsuffix
    obtain ⟨more, rfl⟩ := List.head?_eq_some_iff.mp (beq_iff_eq.mp hhead)
    refine ⟨1, ?_, ?_⟩
    · simp only [suffixed, if_pos hsuffix]
    · simp only [suffixed, if_pos hsuffix, List.take_succ_cons, List.take_zero]
      exact if_pos (by decide)
  -- Neither a unit nor the end of the text is the suffix of a number of any precision.
  have hunits : ∀ unit ∈ [] :: durationUnits,
      ¬(unit.head? == some 'n' && !nameGoesOn (unit.drop 1)) := by decide
  by_cases hplain : places.isEmpty && power.isEmpty
  · cases hunit : durationUnit? rest with
    | none =>
        have hnone : durationUnit? [] = none := by decide
        refine ⟨0, ?_, ?_⟩
        · simp only [suffixed, if_neg hsuffix, if_pos hplain, hunit, Nat.add_zero]
        · simp only [suffixed, if_neg hsuffix, if_pos hplain, hunit, List.take_zero,
            if_neg (hunits [] (by simp)), hnone]
    | some unit =>
        obtain ⟨hmem, hbegins⟩ := prefix_of_durationUnit? hunit
        refine ⟨unit.length, ?_, ?_⟩
        · simp only [suffixed, if_neg hsuffix, if_pos hplain, hunit]
        · rw [← List.prefix_iff_eq_take.mp hbegins]
          simp only [suffixed, if_neg hsuffix, if_pos hplain, hunit,
            if_neg (hunits unit (List.mem_cons_of_mem _ hmem)), durationUnit?_unit hmem]
  · refine ⟨0, ?_, ?_⟩
    · simp only [suffixed, if_neg hsuffix, if_neg hplain, Nat.add_zero]
    · simp only [suffixed, if_neg hsuffix, if_neg hplain, List.take_zero,
        if_neg (hunits [] (by simp))]

theorem readsAlone_decimal (text : List Char) : ReadsAlone 0 decimal text := by
  obtain ⟨whole, hwhole⟩ : ∃ whole, leadingDigits text = whole := ⟨_, rfl⟩
  obtain ⟨places, hplaces⟩ : ∃ places, fraction (text.drop whole.length) = places := ⟨_, rfl⟩
  obtain ⟨power, hpower⟩ :
    ∃ power, exponent (text.drop (whole.length + places.length)) = power := ⟨_, rfl⟩
  obtain ⟨n, hlength, hread⟩ := readsAlone_suffixed whole places power
    (text.drop (whole.length + places.length + power.length))
  have htext : decimal text = suffixed whole places power
      (text.drop (whole.length + places.length + power.length)) := by
    rw [decimal_eq, hwhole, hplaces, hpower]
  refine ⟨whole.length + places.length + power.length + n, ?_, ?_⟩
  · rw [htext, hlength, Nat.zero_add]
  · rw [htext, ← hread, decimal_eq, intrinsic_leadingDigits.take_eq (by rw [hwhole]; omega), hwhole,
      List.drop_take, intrinsic_fraction.take_eq (by rw [hplaces]; omega), hplaces, List.drop_take,
      intrinsic_exponent.take_eq (by rw [hpower]; omega), hpower, List.drop_take,
      Nat.add_sub_cancel_left]

theorem opensHexadecimal_take {n : Nat} (hn : 2 ≤ n) (text : List Char) :
    opensHexadecimal (text.take n) = opensHexadecimal text := by
  obtain ⟨n, rfl⟩ := Nat.exists_eq_add_of_le' hn
  rcases text with - | ⟨c, - | ⟨d, text⟩⟩
  · rfl
  · rfl
  · rfl

theorem opensHexadecimal_of_take {n : Nat} {text : List Char}
    (h : opensHexadecimal (text.take n) = true) : opensHexadecimal text = true := by
  by_cases hn : 2 ≤ n
  · rwa [opensHexadecimal_take hn] at h
  · have hnil : (text.take n).drop 1 = [] := by
      rw [List.drop_take, Nat.sub_eq_zero_of_le (by omega), List.take_zero]
    rw [opensHexadecimal, hnil, Bool.and_eq_true] at h
    exact Bool.noConfusion h.2

theorem readsAlone_numeral (text : List Char) : ReadsAlone 0 numeral text := by
  by_cases hhex : opensHexadecimal text
  · refine (readsAlone_hexadecimal (text.drop 2)).drop.of_eq ?_ fun n hn => ?_
    · rw [numeral_eq, if_pos hhex]
    · have htwo : 2 ≤ n := by
        have hle := two_le_hexadecimal (text.drop 2)
        omega
      rw [numeral_eq, opensHexadecimal_take htwo, if_pos hhex]
  have hnot : ∀ n, ¬opensHexadecimal (text.take n) := fun n => mt opensHexadecimal_of_take hhex
  by_cases hyear : (leadingDigits text).length == 4 && monthAndDayFollow (text.drop 4)
  · refine (readsAlone_absoluteDate text).of_eq ?_ fun n hn => ?_
    · rw [numeral_eq, if_neg hhex, if_pos hyear]
    · obtain ⟨hfour, hfollow⟩ := Bool.and_eq_true_iff.mp hyear
      have hdays : 2 ≤ (leadingDigits (text.drop 8)).length := by
        have htwo := two_le_of_monthAndDayFollow hfollow
        rwa [List.drop_drop] at htwo
      -- All that makes the text a date stands in the first ten characters.
      have hten : 10 ≤ n := by
        simp only [absoluteDate] at hn
        omega
      rw [numeral_eq, if_neg (hnot n),
        intrinsic_leadingDigits.take_eq (by rw [beq_iff_eq.mp hfour]; omega), List.drop_take,
        monthAndDayFollow_take (by omega), if_pos hyear]
  · refine (readsAlone_decimal text).of_eq ?_ fun n hn => ?_
    · rw [numeral_eq, if_neg hhex, if_neg hyear]
    · have hwhole : (leadingDigits text).length ≤ n := by
        have hle := leadingDigits_le_decimal text
        omega
      rw [numeral_eq, if_neg (hnot n), intrinsic_leadingDigits.take_eq hwhole, List.drop_take,
        if_neg]
      intro hshort
      obtain ⟨hfour, hfollow⟩ := Bool.and_eq_true_iff.mp hshort
      exact hyear (Bool.and_eq_true_iff.mpr ⟨hfour, monthAndDayFollow_of_take hfollow⟩)

end QoreSyntax.Token
