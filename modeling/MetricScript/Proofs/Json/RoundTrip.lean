import Mathlib.Data.List.Basic
import Mathlib.Data.Nat.Digits.Defs
import MetricScript.Json.Reader
import MetricScript.Json.Writer

/-! # JSON texts are read back

A value without doubles is read back from its text, whatever stands behind it. Doubles are left out,
as a text need not be read as the double that it was written for. -/

namespace MetricScript.Json

/-! ## Digits -/

theorem isDigit_of_mem_digitsOf {n : ℕ} {c : Char} (h : c ∈ Decimal.digitsOf n) : c.isDigit :=
  Nat.isDigit_of_mem_toDigits (by decide) (by decide) h

theorem digitValue_digitsOf (n : ℕ) : Decimal.digitValue (Decimal.digitsOf n) = n :=
  Nat.ofDigitChars_ten_toDigits

theorem digitsOf_ne_nil (n : ℕ) : Decimal.digitsOf n ≠ [] :=
  Nat.toDigits_ne_nil

/-- No zeros stand in front of a number. -/
theorem head?_digitsOf_ne {n : ℕ} (h : 0 < n) : (Decimal.digitsOf n).head? ≠ some '0' := by
  induction n using Nat.strongRecOn with
  | ind n ih =>
      rw [Decimal.digitsOf]
      by_cases hsmall : n < 10
      · rw [Nat.toDigits_of_lt_base hsmall, List.head?_cons, ne_eq, Option.some.injEq,
          Nat.digitChar_eq_zero]
        omega
      · have hfront : 0 < n / 10 := by omega
        have hsplit : Nat.toDigits 10 (n / 10) ++ Nat.toDigits 10 (n % 10) = Nat.toDigits 10 n := by
          rw [Nat.toDigits_append_toDigits (by decide) hfront (Nat.mod_lt _ (by decide)),
            Nat.div_add_mod]
        rw [← hsplit, List.head?_append_of_ne_nil _ Nat.toDigits_ne_nil]
        exact ih (n / 10) (by omega) hfront

/-- What may stand behind a number without being taken for a part of it. -/
def Ends (rest : List Char) : Prop :=
  ∀ c ∈ rest.head?, c.isDigit = false ∧ c ≠ '.' ∧ c ≠ 'e' ∧ c ≠ 'E'

theorem spanDigits_append {digits rest : List Char} (hdigits : ∀ c ∈ digits, c.isDigit)
    (hrest : Ends rest) : Decimal.spanDigits (digits ++ rest) = (digits, rest) := by
  have hnone : rest.takeWhile Char.isDigit = [] ∧ rest.dropWhile Char.isDigit = rest := by
    cases rest with
    | nil => exact ⟨rfl, rfl⟩
    | cons c rest =>
        have hc : ¬ c.isDigit := by simp [(hrest c rfl).1]
        exact ⟨List.takeWhile_cons_of_neg hc, List.dropWhile_cons_of_neg hc⟩
  rw [Decimal.spanDigits, List.takeWhile_append_of_pos hdigits,
    List.dropWhile_append_of_pos hdigits, hnone.1, hnone.2, List.append_nil]

theorem fraction?_of_ends {rest : List Char} (h : Ends rest) :
    fraction? rest = some (none, rest) := by
  unfold fraction?
  split
  · next rest => exact absurd rfl (h '.' rfl).2.1
  · rfl

theorem power?_of_ends {rest : List Char} (h : Ends rest) : power? rest = some (none, rest) := by
  cases rest with
  | nil => rfl
  | cons c rest =>
      obtain ⟨-, -, hsmall, hlarge⟩ := h c rfl
      simp [power?, hsmall, hlarge]

/-! ## Whole numbers -/

/-- Whole numbers that have a text which is read as a whole number. -/
def Fits (n : ℤ) : Prop :=
  -0x8000000000000000 ≤ n ∧ n ≤ Decimal.wordMax

theorem whole?_digitsOf {n : ℤ} (h : Fits n) :
    whole? (decide (n < 0)) (Decimal.digitsOf n.natAbs) = some n := by
  obtain ⟨hlow, hhigh⟩ := h
  rw [whole?, digitValue_digitsOf]
  by_cases hsign : n < 0
  · have hvalue : -(n.natAbs : ℤ) = n := by omega
    have hne : n ≠ 0 := by omega
    have hle : n.natAbs ≤ 0x8000000000000000 := by omega
    simp only [hsign, decide_true, Bool.not_true, Bool.false_and, Bool.false_eq_true, if_false,
      ne_eq, Int.natAbs_eq_zero, hne, not_false_eq_true, hle, Bool.and_self,
      if_true, hvalue]
  · have hvalue : (n.natAbs : ℤ) = n := by omega
    have hle : n.natAbs ≤ Decimal.wordMax := by omega
    simp only [hsign, decide_false, Bool.not_false, hle, decide_true, Bool.and_self, if_true,
      hvalue]

theorem exists_cons_renderInt (n : ℤ) :
    ∃ c cs, renderInt n = c :: cs ∧ (c = '-' ∨ c.isDigit) := by
  rw [renderInt]
  split_ifs
  · exact ⟨'-', _, rfl, Or.inl rfl⟩
  · obtain ⟨c, cs, hdigits⟩ := List.exists_cons_of_ne_nil (digitsOf_ne_nil n.natAbs)
    exact ⟨c, cs, hdigits, Or.inr (isDigit_of_mem_digitsOf (hdigits ▸ List.mem_cons_self))⟩

theorem number?_renderInt (double : Numeral → Float) {n : ℤ} (h : Fits n) {rest : List Char}
    (hrest : Ends rest) : number? double (renderInt n ++ rest) = some (.int n, rest) := by
  have hspan : Decimal.spanDigits (Decimal.digitsOf n.natAbs ++ rest) =
      (Decimal.digitsOf n.natAbs, rest) :=
    spanDigits_append (fun c => isDigit_of_mem_digitsOf) hrest
  have hleading : ((Decimal.digitsOf n.natAbs).isEmpty ||
      ((Decimal.digitsOf n.natAbs).head? == some '0' &&
        (Decimal.digitsOf n.natAbs).length != 1)) = false := by
    by_cases hzero : n.natAbs = 0
    · rw [hzero]
      rfl
    · simp [digitsOf_ne_nil, head?_digitsOf_ne (Nat.pos_of_ne_zero hzero)]
  have hwhole := whole?_digitsOf h
  -- Neither a point nor an exponent is found behind the digits, so the number is read as a whole.
  rw [renderInt]
  split_ifs with hsign
  · simp only [hsign, decide_true] at hwhole
    rw [List.cons_append, number?]
    simp [hspan, hleading, fraction?_of_ends hrest, power?_of_ends hrest, hwhole]
  · simp only [hsign, decide_false] at hwhole
    rw [number?]
    · simp [hspan, hleading, fraction?_of_ends hrest, power?_of_ends hrest, hwhole]
    · intro tail heq
      obtain ⟨c, cs, hdigits⟩ := List.exists_cons_of_ne_nil (digitsOf_ne_nil n.natAbs)
      rw [hdigits] at heq
      obtain rfl : c = '-' := (List.cons.inj heq).1
      have hminus : '-'.isDigit := isDigit_of_mem_digitsOf (hdigits ▸ List.mem_cons_self)
      exact absurd hminus (by decide)

/-! ## Strings -/

/-- What reading puts in front of the pieces behind it. -/
theorem bind_piece (piece : Piece) (read : Option (List Piece × List Char)) :
    (do
      let (pieces, rest) ← read
      some (piece :: pieces, rest)) =
      read.map fun (pieces, rest) => (piece :: pieces, rest) := by
  cases read <;> rfl

theorem pieces?_letter {letter c : Char} (hu : letter ≠ 'u') (hc : escaped? letter = some c)
    (rest : List Char) : pieces? ('\\' :: letter :: rest) =
      (pieces? rest).map fun (pieces, rest) => (.char c :: pieces, rest) := by
  rw [pieces?, hc]
  · exact bind_piece (.char c) (pieces? rest)
  · rintro _ _ _ _ _ rfl
    exact absurd rfl hu

theorem pieces?_control {n : ℕ} (hn : n < 0x20) (rest : List Char) :
    pieces? ('\\' :: 'u' :: '0' :: '0' :: hexDigit (n / 16) :: hexDigit (n % 16) :: rest) =
      (pieces? rest).map fun (pieces, rest) => (.unit n :: pieces, rest) := by
  have hunit : ∀ n < 0x20, hexUnit? '0' '0' (hexDigit (n / 16)) (hexDigit (n % 16)) = some n := by
    decide
  rw [pieces?, hunit n hn]
  exact bind_piece (.unit n) (pieces? rest)

theorem pieces?_plain {c : Char} (hquote : c ≠ '\x22') (hbackslash : c ≠ '\\')
    (hcontrol : ¬ c.toNat < 0x20) (rest : List Char) :
    pieces? (c :: rest) = (pieces? rest).map fun (pieces, rest) => (.char c :: pieces, rest) := by
  rw [pieces?, if_neg hcontrol]
  · exact bind_piece (.char c) (pieces? rest)
  · exact hquote
  · exact fun _ _ _ _ _ h _ => hbackslash h
  · exact fun _ _ h _ => hbackslash h

theorem joinPieces?_control {n : ℕ} (hn : n < 0x20) (pieces : List Piece) :
    joinPieces? (.unit n :: pieces) = (joinPieces? pieces).map (Char.ofNat n :: ·) := by
  have hhigh : isHighSurrogate n = false := by simp [isHighSurrogate]; omega
  have hlow : isLowSurrogate n = false := by simp [isLowSurrogate]; omega
  rw [joinPieces?.eq_def]
  simp only [hhigh, hlow, Bool.false_eq_true, if_false]

/-- Every character is written as something that is read as one piece, which stands for that
character. -/
theorem exists_piece (c : Char) :
    ∃ piece, (∀ rest, pieces? (escape c ++ rest) =
      (pieces? rest).map fun (pieces, rest) => (piece :: pieces, rest)) ∧
      ∀ pieces, joinPieces? (piece :: pieces) = (joinPieces? pieces).map (c :: ·) := by
  unfold escape
  split_ifs with hquote hbackslash hbackspace hfeed hline hreturn htab hcontrol
  · exact ⟨.char c, pieces?_letter (by decide) (by rw [hquote]; rfl), fun _ => rfl⟩
  · exact ⟨.char c, pieces?_letter (by decide) (by rw [hbackslash]; rfl), fun _ => rfl⟩
  · exact ⟨.char c, pieces?_letter (by decide) (hbackspace ▸ rfl), fun _ => rfl⟩
  · exact ⟨.char c, pieces?_letter (by decide) (hfeed ▸ rfl), fun _ => rfl⟩
  · exact ⟨.char c, pieces?_letter (by decide) (hline ▸ rfl), fun _ => rfl⟩
  · exact ⟨.char c, pieces?_letter (by decide) (hreturn ▸ rfl), fun _ => rfl⟩
  · exact ⟨.char c, pieces?_letter (by decide) (htab ▸ rfl), fun _ => rfl⟩
  · refine ⟨.unit c.toNat, pieces?_control hcontrol, fun pieces => ?_⟩
    rw [joinPieces?_control hcontrol, Char.ofNat_toNat]
  · exact ⟨.char c, pieces?_plain hquote hbackslash hcontrol, fun _ => rfl⟩

theorem pieces?_flatMap_escape (cs rest : List Char) :
    ∃ pieces, pieces? (cs.flatMap escape ++ '\x22' :: rest) = some (pieces, rest) ∧
      joinPieces? pieces = some cs := by
  induction cs with
  | nil => exact ⟨[], rfl, rfl⟩
  | cons c cs ih =>
      obtain ⟨pieces, hpieces, hjoin⟩ := ih
      obtain ⟨piece, hpiece, hchar⟩ := exists_piece c
      refine ⟨piece :: pieces, ?_, ?_⟩
      · rw [List.flatMap_cons, List.append_assoc, hpiece, hpieces]
        rfl
      · rw [hchar, hjoin]
        rfl

/-- A text between quotes is read as that text. -/
theorem text?_flatMap_escape (s : String) (rest : List Char) :
    text? (s.toList.flatMap escape ++ '\x22' :: rest) = some (some s, rest) := by
  obtain ⟨pieces, hpieces, hjoin⟩ := pieces?_flatMap_escape s.toList rest
  simp [text?, hpieces, hjoin]

/-! ## Values -/

/-- Values without doubles and unreadable parts, and with whole numbers that fit. -/
inductive Exact : Json → Prop where
  | null : Exact .null
  | bool (b : Bool) : Exact (.bool b)
  | int {n : ℤ} (h : Fits n) : Exact (.int n)
  | string (s : String) : Exact (.string s)
  | array {items : List Json} (h : ∀ j ∈ items, Exact j) : Exact (.array items)
  | object {fields : List (String × Json)} (h : ∀ field ∈ fields, Exact field.2) :
      Exact (.object fields)

/-- Number signs and digits are none of the characters that other values and spaces begin with. -/
theorem ne_of_numeric {c d : Char} (hc : c = '-' ∨ c.isDigit) (hminus : d ≠ '-')
    (hdigit : d.isDigit = false) : c ≠ d := by
  rintro rfl
  rcases hc with rfl | hc
  · exact hminus rfl
  · exact absurd hc (by simp [hdigit])

theorem isSpace_of_numeric {c : Char} (hc : c = '-' ∨ c.isDigit) : isSpace c = false := by
  have hspace := ne_of_numeric hc (d := ' ') (by decide) rfl
  have htab := ne_of_numeric hc (d := '\t') (by decide) rfl
  have hline := ne_of_numeric hc (d := '\n') (by decide) rfl
  have hreturn := ne_of_numeric hc (d := '\r') (by decide) rfl
  simp [isSpace, hspace, htab, hline, hreturn]

/-- The text of a value begins with a character that is no space and does not close an array. -/
theorem Exact.exists_cons {j : Json} (h : j.Exact) :
    ∃ c cs, j.render = c :: cs ∧ isSpace c = false ∧ c ≠ ']' := by
  cases h with
  | null => exact ⟨'n', _, rfl, by decide⟩
  | bool b => cases b <;> exact ⟨_, _, rfl, by decide⟩
  | @int n _ =>
      obtain ⟨c, cs, hcons, hc⟩ := exists_cons_renderInt n
      exact ⟨c, cs, by rw [render, hcons], isSpace_of_numeric hc,
        ne_of_numeric hc (by decide) rfl⟩
  | string s => exact ⟨'\x22', _, rfl, by decide⟩
  | array _ => exact ⟨'[', _, rfl, by decide⟩
  | object _ => exact ⟨'\x7b', _, rfl, by decide⟩

theorem exists_cons_renderItems {j : Json} (h : j.Exact) (later : List Json) :
    ∃ c cs, renderItems (j :: later) = c :: cs ∧ isSpace c = false ∧ c ≠ ']' := by
  obtain ⟨c, cs, hcons, hspace, hclose⟩ := h.exists_cons
  cases later with
  | nil => exact ⟨c, cs, hcons, hspace, hclose⟩
  | cons next later =>
      exact ⟨c, cs ++ ',' :: renderItems (next :: later),
        by rw [renderItems, hcons, List.cons_append]; simp, hspace, hclose⟩

theorem exists_cons_renderFields (field : String × Json) (later : List (String × Json)) :
    ∃ cs, renderFields (field :: later) = '\x22' :: cs := by
  cases later with
  | nil => exact ⟨_, rfl⟩
  | cons next later => exact ⟨_, rfl⟩

theorem skipSpace_cons {c : Char} (h : isSpace c = false) (cs : List Char) :
    skipSpace (c :: cs) = c :: cs :=
  List.dropWhile_cons_of_neg (by simp [h])

/-! ## Reading values -/

variable {double : Numeral → Float}

theorem value?_int {n : ℤ} (h : Fits n) (fuel : ℕ) {rest : List Char} (hrest : Ends rest) :
    value? double (fuel + 1) (renderInt n ++ rest) = some (.int n, rest) := by
  obtain ⟨c, cs, hcons, hc⟩ := exists_cons_renderInt n
  have hskip : skipSpace (renderInt n ++ rest) = renderInt n ++ rest := by
    rw [hcons, List.cons_append, skipSpace_cons (isSpace_of_numeric hc)]
  have hother {d : Char} {tail : List Char} (heq : renderInt n ++ rest = d :: tail) :
      d = '-' ∨ d.isDigit := by
    rw [hcons, List.cons_append, List.cons.injEq] at heq
    exact heq.1 ▸ hc
  rw [value?, hskip]
  split
  · next heq => exact absurd (hother heq) (by decide)
  · next heq => exact absurd (hother heq) (by decide)
  · next heq => exact absurd (hother heq) (by decide)
  · next heq => exact absurd (hother heq) (by decide)
  · next heq => exact absurd (hother heq) (by decide)
  · next heq => exact absurd (hother heq) (by decide)
  · exact number?_renderInt double h hrest

theorem value?_string (s : String) (fuel : ℕ) (rest : List Char) :
    value? double (fuel + 1) (quote s ++ rest) = some (.string s, rest) := by
  have hcons : quote s ++ rest = '\x22' :: (s.toList.flatMap escape ++ '\x22' :: rest) := by
    simp [quote]
  rw [hcons, value?, skipSpace_cons rfl]
  simp only [text?_flatMap_escape, Option.map_some, Option.elim_some]

/-- A value is read back from its text, whatever stands behind it, with as much fuel as the text has
characters. -/
def ReadsBack (double : Numeral → Float) (j : Json) : Prop :=
  ∀ fuel rest, j.render.length ≤ fuel → Ends rest →
    value? double fuel (j.render ++ rest) = some (j, rest)

theorem readsBack_of_succ {j : Json} (hne : j.render ≠ [])
    (h : ∀ fuel rest, j.render.length ≤ fuel + 1 → Ends rest →
      value? double (fuel + 1) (j.render ++ rest) = some (j, rest)) : ReadsBack double j := by
  intro fuel rest hfuel hrest
  cases fuel with
  | zero => exact absurd (List.length_eq_zero_iff.mp (Nat.le_zero.mp hfuel)) hne
  | succ fuel => exact h fuel rest hfuel hrest

theorem ends_cons {c : Char} (hc : c ∈ [',', ']', '\x7d']) (rest : List Char) :
    Ends (c :: rest) := by
  simp only [List.mem_cons, List.not_mem_nil, or_false] at hc
  rintro _ ⟨⟩
  rcases hc with rfl | rfl | rfl <;> decide

theorem items?_renderItems {items : List Json} (hne : items ≠ [])
    (h : ∀ j ∈ items, ReadsBack double j) {fuel : ℕ} (hfuel : (renderItems items).length < fuel)
    (rest : List Char) :
    items? double fuel (renderItems items ++ ']' :: rest) = some (items, rest) := by
  induction items generalizing fuel with
  | nil => exact absurd rfl hne
  | cons j later ih =>
      obtain ⟨hj, hlater⟩ := List.forall_mem_cons.mp h
      obtain ⟨fuel, rfl⟩ : ∃ f, fuel = f + 1 := Nat.exists_eq_succ_of_ne_zero (by omega)
      cases later with
      | nil =>
          rw [renderItems] at hfuel ⊢
          have hvalue := hj fuel (']' :: rest) (by omega) (ends_cons (by decide) rest)
          rw [items?, hvalue]
          rfl
      | cons next later =>
          have hrender : renderItems (j :: next :: later) =
              j.render ++ ',' :: renderItems (next :: later) := rfl
          rw [hrender, List.length_append, List.length_cons] at hfuel
          have hvalue := hj fuel (',' :: (renderItems (next :: later) ++ ']' :: rest)) (by omega)
            (ends_cons (by decide) _)
          have hbound : (renderItems (next :: later)).length < fuel := by omega
          have hitems := ih (List.cons_ne_nil _ _) hlater hbound
          rw [hrender, List.append_assoc, List.cons_append, items?, hvalue]
          simp only [Option.bind_eq_bind, Option.bind_some, skipSpace_cons (c := ',') rfl, hitems]

theorem fields?_renderFields {fields : List (String × Json)} (hne : fields ≠ [])
    (h : ∀ field ∈ fields, ReadsBack double field.2) {fuel : ℕ}
    (hfuel : (renderFields fields).length < fuel) (rest : List Char) :
    fields? double fuel (renderFields fields ++ '\x7d' :: rest) =
      some (fields.map fun field => (some field.1, field.2), rest) := by
  induction fields generalizing fuel with
  | nil => exact absurd rfl hne
  | cons field later ih =>
      obtain ⟨key, j⟩ := field
      have hj : ReadsBack double j := h (key, j) List.mem_cons_self
      have hlater := (List.forall_mem_cons.mp h).2
      obtain ⟨fuel, rfl⟩ : ∃ f, fuel = f + 1 := Nat.exists_eq_succ_of_ne_zero (by omega)
      have hkey (cs : List Char) : quote key ++ ':' :: cs =
          '\x22' :: (key.toList.flatMap escape ++ '\x22' :: ':' :: cs) := by
        simp [quote]
      cases later with
      | nil =>
          have hrender : renderFields [(key, j)] = quote key ++ ':' :: j.render := rfl
          rw [hrender, List.length_append, List.length_cons] at hfuel
          have hvalue := hj fuel ('\x7d' :: rest) (by omega) (ends_cons (by decide) rest)
          rw [hrender, List.append_assoc, List.cons_append, hkey, fields?, skipSpace_cons rfl]
          simp only [text?_flatMap_escape, Option.bind_eq_bind, Option.bind_some,
            skipSpace_cons (c := ':') rfl, hvalue, skipSpace_cons (c := '\x7d') rfl]
          rfl
      | cons next later =>
          have hrender : renderFields ((key, j) :: next :: later) =
              quote key ++ ':' :: j.render ++ ',' :: renderFields (next :: later) := rfl
          rw [hrender, List.append_assoc, List.length_append, List.length_append, List.length_cons,
            List.length_cons] at hfuel
          have hvalue := hj fuel (',' :: (renderFields (next :: later) ++ '\x7d' :: rest))
            (by omega) (ends_cons (by decide) _)
          have hbound : (renderFields (next :: later)).length < fuel := by omega
          have hfields := ih (List.cons_ne_nil _ _) hlater hbound
          have hsplit : quote key ++ ':' :: j.render ++ ',' :: renderFields (next :: later) ++
              '\x7d' :: rest = quote key ++ ':' ::
                (j.render ++ ',' :: (renderFields (next :: later) ++ '\x7d' :: rest)) := by simp
          rw [hrender, hsplit, hkey, fields?, skipSpace_cons rfl]
          simp only [text?_flatMap_escape, Option.bind_eq_bind, Option.bind_some,
            skipSpace_cons (c := ':') rfl, hvalue, skipSpace_cons (c := ',') rfl, hfields]
          rfl

theorem ofFields_map (fields : List (String × Json)) :
    ofFields (fields.map fun field => (some field.1, field.2)) = .object fields := by
  have hfields : (fields.map fun field => (some field.1, field.2)).mapM
      (fun field : Option String × Json => field.1.map (·, field.2)) = some fields := by
    induction fields with
    | nil => rfl
    | cons field later ih => simp [ih]
  unfold ofFields
  split
  · next heq => rw [Option.some.inj (heq.symm.trans hfields)]
  · next heq => cases heq.symm.trans hfields

theorem readsBack_array {items : List Json} (hexact : ∀ j ∈ items, j.Exact)
    (h : ∀ j ∈ items, ReadsBack double j) : ReadsBack double (.array items) := by
  refine readsBack_of_succ (List.cons_ne_nil _ _) fun fuel rest hfuel _ => ?_
  have hrender : (Json.array items).render ++ rest = '[' :: (renderItems items ++ ']' :: rest) := by
    simp [render]
  rw [render, List.cons_append, List.length_cons, List.length_append,
    List.length_singleton] at hfuel
  rw [hrender, value?, skipSpace_cons rfl]
  cases items with
  | nil => rfl
  | cons j later =>
      obtain ⟨c, cs, hcons, hspace, hclose⟩ := 
        exists_cons_renderItems (hexact j List.mem_cons_self) later
      have hbound : (renderItems (j :: later)).length < fuel := by omega
      have hread := items?_renderItems (List.cons_ne_nil j later) h hbound rest
      rw [hcons, List.cons_append] at hread ⊢
      simp only [skipSpace_cons hspace]
      -- No item begins with the bracket that would make the array an empty one.
      split
      · next heq => exact absurd (List.cons.inj heq).1 hclose
      · rw [hread, Option.map_some]

theorem readsBack_object {fields : List (String × Json)}
    (h : ∀ field ∈ fields, ReadsBack double field.2) : ReadsBack double (.object fields) := by
  refine readsBack_of_succ (List.cons_ne_nil _ _) fun fuel rest hfuel _ => ?_
  have hrender : (Json.object fields).render ++ rest =
      '\x7b' :: (renderFields fields ++ '\x7d' :: rest) := by
    simp [render]
  rw [render, List.cons_append, List.length_cons, List.length_append,
    List.length_singleton] at hfuel
  rw [hrender, value?, skipSpace_cons rfl]
  cases fields with
  | nil => rfl
  | cons field later =>
      obtain ⟨cs, hcons⟩ := exists_cons_renderFields field later
      have hbound : (renderFields (field :: later)).length < fuel := by omega
      have hread := fields?_renderFields (List.cons_ne_nil field later) h hbound rest
      rw [hcons, List.cons_append] at hread ⊢
      simp only [skipSpace_cons (c := '\x22') rfl, hread, Option.map_some, ofFields_map]
      rfl

/-- Values without doubles are read back from their text. -/
theorem Exact.readsBack {j : Json} (h : j.Exact) : ReadsBack double j := by
  induction h with
  | null => exact readsBack_of_succ (List.cons_ne_nil _ _) fun _ _ _ _ => rfl
  | bool b =>
      cases b
      · exact readsBack_of_succ (List.cons_ne_nil _ _) fun _ _ _ _ => rfl
      · exact readsBack_of_succ (List.cons_ne_nil _ _) fun _ _ _ _ => rfl
  | @int n hn =>
      obtain ⟨c, cs, hcons, -⟩ := exists_cons_renderInt n
      have hne : (Json.int n).render ≠ [] := by
        rw [render, hcons]
        exact List.cons_ne_nil c cs
      exact readsBack_of_succ hne fun fuel _ _ hrest => value?_int hn fuel hrest
  | string s =>
      exact readsBack_of_succ (List.cons_ne_nil _ _) fun fuel rest _ _ => value?_string s fuel rest
  | array hitems ih => exact readsBack_array hitems ih
  | object _ ih => exact readsBack_object ih

/-- The text of a value without doubles is a text of that value. -/
theorem Exact.parse?_toText {j : Json} (h : j.Exact) : parse? j.toText = some j := by
  have hback : ReadsBack Numeral.quick j := h.readsBack
  have hread := hback (j.render.length + 1) [] (Nat.le_succ _) (by rintro _ ⟨⟩)
  rw [List.append_nil] at hread
  rw [parse?, toText, String.toList_ofList, parseChars?, hread]
  rfl

end MetricScript.Json
