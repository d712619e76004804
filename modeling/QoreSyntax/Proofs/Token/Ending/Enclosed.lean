import QoreSyntax.Proofs.Token.Ending.Part

namespace QoreSyntax.Token

section Enclosed

variable {close : Char} {escapes : Bool}

theorem closing?_append {count n : Nat} {text : List Char}
    (h : closing? close escapes count text = some n) (rest : List Char) :
    closing? close escapes count (text ++ rest) = some n := by
  fun_induction closing? close escapes count text with
  | case1 => cases h
  | case2 count c cs hclose =>
      rw [List.cons_append, closing?.eq_def]
      dsimp only
      rw [if_pos hclose]
      exact h
  | case3 => cases h
  | case4 count c hclose hescape d cs ih =>
      rw [List.cons_append, List.cons_append, closing?.eq_def]
      dsimp only
      rw [if_neg hclose, if_pos hescape]
      exact ih h
  | case5 count c cs hclose hescape ih =>
      rw [List.cons_append, closing?.eq_def]
      dsimp only
      rw [if_neg hclose, if_neg hescape]
      exact ih h

theorem lt_of_closing? {count n : Nat} {text : List Char}
    (h : closing? close escapes count text = some n) : n < count + text.length := by
  fun_induction closing? close escapes count text with
  | case1 => cases h
  | case2 count c cs hclose =>
      obtain rfl := Option.some.inj h
      simp
  | case3 => cases h
  | case4 count c hclose hescape d cs ih =>
      have := ih h
      simp only [List.length_cons]
      omega
  | case5 count c cs hclose hescape ih =>
      have := ih h
      simp only [List.length_cons]
      omega

end Enclosed

/-- The literal between two marks with the value `value`, which is at fault if nothing closes it. -/
theorem endsIn_quoted {close : Char} {escapes : Bool} {enclosure : Enclosure} {lines : Bool}
    (value : List Char → Kind) (text : List Char) :
    let read (text : List Char) : Lexeme :=
      match closing? close escapes 0 text with
      | none => unterminated enclosure lines 1 text
      | some n => ⟨value (text.take n), n + 2⟩
    (∀ fault, (read text).kind ≠ .invalid fault) → EndsIn 1 read text := by
  intro read hvalid
  cases hclosing : closing? close escapes 0 text with
  | none => simp [read, hclosing, unterminated] at hvalid
  | some n =>
      have hn := lt_of_closing? hclosing
      have hread : read text = ⟨value (text.take n), n + 2⟩ := by simp only [read, hclosing]
      constructor
      · rw [hread]
        dsimp only
        omega
      · intro rest
        have hclosing' := closing?_append hclosing ('\n' :: rest)
        rw [hread]
        simp only [read, hclosing']
        rw [List.take_append_of_le_length (by omega)]

theorem endsIn_doubleQuoted {text : List Char}
    (hvalid : ∀ fault, (doubleQuoted text).kind ≠ .invalid fault) : EndsIn 1 doubleQuoted text :=
  endsIn_quoted (fun body => .string (String.ofList (unescapeDouble 0 body))) text hvalid

theorem endsIn_singleQuoted {text : List Char}
    (hvalid : ∀ fault, (singleQuoted text).kind ≠ .invalid fault) : EndsIn 1 singleQuoted text :=
  endsIn_quoted (fun body => .string (String.ofList (unescapeSingle body))) text hvalid

theorem endsIn_backquoted {text : List Char}
    (hvalid : ∀ fault, (backquoted text).kind ≠ .invalid fault) : EndsIn 1 backquoted text :=
  endsIn_quoted (fun body => .backquote (String.ofList body)) text hvalid

theorem regexOpening?_eq (text : List Char) : regexOpening? text =
    if ['/'].isPrefixOf text then some (.match, 1)
    else if ['m', '/'].isPrefixOf text then some (.match, 2)
    else if ['s', '/'].isPrefixOf text then some (.substitute, 2)
    else if ['x', '/'].isPrefixOf text then some (.extract, 2)
    else if ['t', 'r', '/'].isPrefixOf text then some (.transliterate, 3)
    else none := by
  rw [regexOpening?.eq_def]
  split
  · rfl
  · rfl
  · rfl
  · rfl
  · rfl
  · rename_i hmatch hmatch' hsubstitute hextract htransliterate
    have hnot : ∀ {front : List Char}, (∀ tail, text ≠ front ++ tail) →
        front.isPrefixOf text = false := by
      refine fun hne => Bool.eq_false_iff.mpr fun hprefix => ?_
      obtain ⟨tail, rfl⟩ := List.isPrefixOf_iff_prefix.mp hprefix
      exact hne tail rfl
    rw [hnot hmatch, hnot hmatch', hnot hsubstitute, hnot hextract, hnot htransliterate]
    rfl

theorem regexOpening?_append (text rest : List Char) :
    regexOpening? (text ++ '\n' :: rest) = regexOpening? text := by
  rw [regexOpening?_eq, regexOpening?_eq, isPrefixOf_append_lineEnd (by decide),
    isPrefixOf_append_lineEnd (by decide), isPrefixOf_append_lineEnd (by decide),
    isPrefixOf_append_lineEnd (by decide), isPrefixOf_append_lineEnd (by decide)]

theorem length_of_regexOpening? {text : List Char} {purpose : Regex.Purpose} {opening : Nat}
    (h : regexOpening? text = some (purpose, opening)) : opening ≤ text.length := by
  have hle : ∀ {front : List Char}, front.isPrefixOf text = true → front.length ≤ text.length :=
    fun hprefix => (List.isPrefixOf_iff_prefix.mp hprefix).length_le
  rw [regexOpening?_eq] at h
  split_ifs at h with hmatch hmatch' hsubstitute hextract htransliterate
  · cases h
    exact hle hmatch
  · cases h
    exact hle hmatch'
  · cases h
    exact hle hsubstitute
  · cases h
    exact hle hextract
  · cases h
    exact hle htransliterate

theorem endsIn_regexLiteral (purpose : Regex.Purpose) (opening : Nat) {text : List Char}
    (hvalid : ∀ fault, (regexLiteral purpose opening text).kind ≠ .invalid fault) :
    EndsIn opening (regexLiteral purpose opening) text := by
  have hflags : Local (List.takeWhile Char.isAlpha) := .takeWhile (by decide)
  cases hfirst : closing? '/' true 0 text with
  | none => simp [regexLiteral, hfirst, unterminated] at hvalid
  | some n =>
      have hn := lt_of_closing? hfirst
      have hfirst' := fun rest => closing?_append hfirst ('\n' :: rest)
      have htake : ∀ rest, (text ++ '\n' :: rest).take n = text.take n :=
        fun rest => List.take_append_of_le_length (by omega)
      have hdrop : ∀ {m}, m ≤ text.length → ∀ rest,
          (text ++ '\n' :: rest).drop m = text.drop m ++ '\n' :: rest :=
        fun hm rest => List.drop_append_of_le_length hm
      cases hreplaces : purpose.hasReplacement with
      | false =>
          have hlength := hflags.length_le (text.drop (n + 1))
          rw [List.length_drop] at hlength
          constructor
          · simp only [regexLiteral, hfirst, hreplaces, Bool.false_eq_true, if_false]
            omega
          · intro rest
            simp only [regexLiteral, hfirst, hfirst', hreplaces, Bool.false_eq_true, if_false,
              htake, hdrop (m := n + 1) (by omega), hflags.append_eq]
      | true =>
          cases hsecond : closing? '/' true 0 (text.drop (n + 1)) with
          | none => simp [regexLiteral, hfirst, hreplaces, hsecond, unterminated] at hvalid
          | some k =>
              have hk := lt_of_closing? hsecond
              have hlength := hflags.length_le (text.drop (n + k + 2))
              rw [List.length_drop] at hk hlength
              have hsecond' := fun rest => closing?_append hsecond ('\n' :: rest)
              constructor
              · simp only [regexLiteral, hfirst, hreplaces, if_true, hsecond]
                omega
              · intro rest
                have htake' : (text.drop (n + 1) ++ '\n' :: rest).take k
                    = (text.drop (n + 1)).take k :=
                  List.take_append_of_le_length (by rw [List.length_drop]; omega)
                simp only [regexLiteral, hfirst, hfirst', hreplaces, if_true, hsecond, hsecond',
                  htake, htake', hdrop (m := n + 1) (by omega), hdrop (m := n + k + 2) (by omega),
                  hflags.append_eq]

end QoreSyntax.Token
