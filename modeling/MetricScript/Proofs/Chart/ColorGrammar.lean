import Mathlib.Computability.Language
import Mathlib.Data.List.SplitBy
import MetricScript.Chart.Color
import MetricScript.Proofs.Text.Letters

/-! # The grammar of colors

Colors are written in three forms: hexadecimal, by a function, and by name. Each form is a language,
and together they hold exactly the texts that are taken for colors. -/

namespace MetricScript.Color

/-! ## Languages -/

/-- White space, perhaps none. -/
def blanks : Language Char :=
  {cs | ∀ c ∈ cs, Text.isBlank c}

/-- One of some characters. -/
def oneOf (chars : List Char) : Language Char :=
  {cs | ∃ c ∈ chars, cs = [c]}

/-- 3, 4, 6 or 8 of the digits `0-9`, `a-f` and `A-F`. -/
def hexDigits : Language Char :=
  {cs | cs.length ∈ [3, 4, 6, 8] ∧
    ∀ c ∈ cs, c.isDigit ∨ ('a' ≤ c ∧ c ≤ 'f') ∨ ('A' ≤ c ∧ c ≤ 'F')}

def hex : Language Char :=
  oneOf ['#'] * hexDigits

/-- A name of a function, letters in any case. -/
def functionName : Language Char :=
  {cs | String.ofList (cs.map Text.foldLetter) ∈ functionNames}

/-- One or more of the characters `-`, `+`, `0-9`, `.`, `%` and `a-z`, letters in any case. -/
def component : Language Char :=
  {cs | cs ≠ [] ∧
    ∀ c ∈ cs, c ∈ ['-', '+', '.', '%'] ∨ c.isDigit ∨ (Text.foldLetter c).isLower}

/-- A comma, a slash or a space, with white space on either side. -/
def separator : Language Char :=
  blanks * oneOf [',', '/', ' '] * blanks

/-- Three or four components, with a separator in front of each but the first. -/
def components : Language Char :=
  component * ((separator * component) ^ 2 + (separator * component) ^ 3)

/-- A function with components in brackets. -/
def functional : Language Char :=
  functionName * oneOf ['('] * blanks * components * blanks * oneOf [')']

/-- A name in the table, letters `A` to `Z` in any case. -/
def named : Language Char :=
  {cs | Text.lowerAscii (String.ofList cs) ∈ names}

def colors : Language Char :=
  hex + functional + named

theorem mem_oneOf {chars cs : List Char} : cs ∈ oneOf chars ↔ ∃ c ∈ chars, cs = [c] := Iff.rfl

theorem mem_oneOf_singleton {c : Char} {cs : List Char} : cs ∈ oneOf [c] ↔ cs = [c] := by
  simp [mem_oneOf]

/-! ## Characters of components -/

/-- A stretch of characters inside or outside of components. -/
def Stretch (inside : Bool) (cs : List Char) : Prop :=
  cs ≠ [] ∧ ∀ c ∈ cs, isComponentChar c = inside

theorem isDigit_foldLetter (c : Char) : (Text.foldLetter c).isDigit = c.isDigit := by
  refine Text.forall_char (P := fun c => (Text.foldLetter c).isDigit = c.isDigit) (by decide) ?_ c
  intro c h
  rw [Text.foldLetter_of_large h]
  split
  · next h => subst h; rfl
  · split
    · next h => subst h; rfl
    · rfl

theorem mem_component {cs : List Char} : cs ∈ component ↔ Stretch true cs := by
  refine and_congr_right fun _ => forall₂_congr fun c _ => ?_
  simp only [isComponentChar, isDigit_foldLetter, Text.isLower_iff, List.contains_eq_mem,
    Bool.or_eq_true, Bool.and_eq_true, decide_eq_true_eq]
  exact or_comm

theorem not_le_of_large {c d : Char} (hc : 128 ≤ c.toNat) (hd : d.toNat < 128) : ¬ c ≤ d := by
  intro hle
  have hle : c.toNat ≤ d.toNat := hle
  omega

/-- Beyond the first 128 characters only two fold into letters. -/
theorem eq_of_isComponentChar_of_large {c : Char} (hlarge : 128 ≤ c.toNat)
    (h : isComponentChar c) : c = '\u212a' ∨ c = '\u017f' := by
  by_contra hne
  obtain ⟨hkelvin, hlong⟩ := not_or.mp hne
  have hdigit : ¬ c ≤ '9' := not_le_of_large hlarge (by decide)
  have hletter : ¬ c ≤ 'z' := not_le_of_large hlarge (by decide)
  have hsign : c ∉ ['-', '+', '.', '%'] := by
    intro hmem
    simp only [List.mem_cons, List.not_mem_nil, or_false] at hmem
    rcases hmem with rfl | rfl | rfl | rfl <;> exact absurd hlarge (by decide)
  rw [isComponentChar, Text.foldLetter_of_large hlarge, if_neg hkelvin, if_neg hlong] at h
  simp only [Char.isDigit, List.contains_eq_mem, Bool.or_eq_true, Bool.and_eq_true,
    decide_eq_true_eq, hletter, hsign, and_false, or_false] at h
  exact hdigit h.2

/-- Components have no white space in them. -/
theorem isComponentChar_of_isBlank {c : Char} (h : Text.isBlank c) : isComponentChar c = false := by
  revert h
  refine Text.forall_char (P := fun c => Text.isBlank c → isComponentChar c = false)
    (by decide) ?_ c
  intro c hlarge hblank
  rw [← Bool.not_eq_true]
  intro hc
  rcases eq_of_isComponentChar_of_large hlarge hc with rfl | rfl
  · exact absurd hblank (by decide)
  · exact absurd hblank (by decide)

/-! ## Separators -/

theorem mem_separator {cs : List Char} :
    cs ∈ separator ↔ ∃ front c back, cs = front ++ c :: back ∧ (∀ b ∈ front, Text.isBlank b) ∧
      (∀ b ∈ back, Text.isBlank b) ∧ c ∈ [',', '/', ' '] := by
  constructor
  · rintro ⟨-, ⟨front, hfront, -, ⟨c, hc, rfl⟩, rfl⟩, back, hback, rfl⟩
    exact ⟨front, c, back, by simp, hfront, hback, hc⟩
  · rintro ⟨front, c, back, rfl, hfront, hback, hc⟩
    exact ⟨front ++ [c], ⟨front, hfront, [c], ⟨c, hc, rfl⟩, rfl⟩, back, hback, by simp⟩

theorem isGap_iff (cs : List Char) : isGap cs ↔ cs ∈ separator := by
  rw [mem_separator]
  constructor
  · intro h
    unfold isGap at h
    -- Of white space alone, any of the spaces may be taken for the separator.
    split at h
    · next hfilter =>
        have hblank : ∀ b ∈ cs, Text.isBlank b := by simpa [List.filter_eq_nil_iff] using hfilter
        obtain ⟨front, back, rfl⟩ := List.append_of_mem (List.contains_iff_mem.mp h)
        exact ⟨front, ' ', back, rfl, fun b hb => hblank b (by simp [hb]),
          fun b hb => hblank b (by simp [hb]), by simp⟩
    · next c hfilter =>
        obtain ⟨front, back, rfl, hfront, -, hback⟩ := List.filter_eq_cons_iff.mp hfilter
        refine ⟨front, c, back, rfl, by simpa using hfront, ?_, ?_⟩
        · simpa [List.filter_eq_nil_iff] using hback
        · simpa [or_assoc] using Or.inl h
    · cases h
  · rintro ⟨front, c, back, rfl, hfront, hback, hc⟩
    have hfilter : (front ++ c :: back).filter (fun b => !Text.isBlank b) =
        if Text.isBlank c then [] else [c] := by
      have hnone {bs : List Char} (h : ∀ b ∈ bs, Text.isBlank b) :
          bs.filter (fun b => !Text.isBlank b) = [] := by
        simpa [List.filter_eq_nil_iff] using h
      rw [List.filter_append, hnone hfront, List.nil_append, List.filter_cons, hnone hback]
      cases Text.isBlank c <;> rfl
    rw [isGap, hfilter]
    simp only [List.mem_cons, List.not_mem_nil, or_false] at hc
    rcases hc with rfl | rfl | rfl
    · rfl
    · rfl
    · change (front ++ ' ' :: back).contains ' ' = true
      simp

theorem stretch_of_separator {cs : List Char} (h : cs ∈ separator) : Stretch false cs := by
  obtain ⟨front, c, back, rfl, hfront, hback, hc⟩ := mem_separator.mp h
  refine ⟨by simp, fun d hd => ?_⟩
  rcases List.mem_append.mp hd with hd | hd
  · exact isComponentChar_of_isBlank (hfront d hd)
  · rcases List.mem_cons.mp hd with rfl | hd
    · simp only [List.mem_cons, List.not_mem_nil, or_false] at hc
      rcases hc with rfl | rfl | rfl <;> decide
    · exact isComponentChar_of_isBlank (hback d hd)

/-! ## Stretches -/

/-- Stretches by turns inside and outside of components. -/
def Alternate : (inside : Bool) → List (List Char) → Prop
  | _, [] => True
  | inside, word :: rest => Stretch inside word ∧ Alternate (!inside) rest

theorem Alternate.stretch {inside : Bool} {words : List (List Char)} (h : Alternate inside words) :
    ∀ word ∈ words, ∃ side, Stretch side word := by
  induction words generalizing inside with
  | nil => exact fun _ h => absurd h List.not_mem_nil
  | cons word rest ih => exact List.forall_mem_cons.mpr ⟨⟨inside, h.1⟩, ih h.2⟩

theorem Stretch.isChain {inside : Bool} {word : List Char} (h : Stretch inside word) :
    word.IsChain fun a b => (isComponentChar a == isComponentChar b) = true := by
  refine (List.pairwise_of_forall_mem_list fun a ha b hb => ?_).isChain
  rw [h.2 a ha, h.2 b hb, beq_self_eq_true]

/-- Stretches by turns are what a text that consists of them is cut into. -/
theorem stretches_flatten {inside : Bool} {words : List (List Char)} (h : Alternate inside words) :
    stretches words.flatten = words := by
  refine List.splitBy_flatten ?_ ?_ ?_
  · intro hnil
    obtain ⟨_, hne, -⟩ := h.stretch [] hnil
    exact hne rfl
  · intro word hword
    obtain ⟨_, hside⟩ := h.stretch word hword
    exact hside.isChain
  · induction words generalizing inside with
    | nil => exact .nil
    | cons word rest ih =>
        refine List.IsChain.cons (ih h.2) fun next hnext => ?_
        obtain ⟨hword, hrest⟩ := h
        cases rest with
        | nil => cases hnext
        | cons _ _ =>
            cases hnext
            refine ⟨hword.1, hrest.1.1, ?_⟩
            rw [hword.2 _ (List.getLast_mem _), hrest.1.2 _ (List.head_mem _)]
            cases inside <;> rfl

theorem isComponentChar_eq_of_isChain {c : Char} {rest : List Char}
    (h : (c :: rest).IsChain fun a b => (isComponentChar a == isComponentChar b) = true) :
    ∀ d ∈ c :: rest, isComponentChar d = isComponentChar c := by
  induction rest generalizing c with
  | nil => simp
  | cons e rest ih =>
      obtain ⟨hce, hrest⟩ := List.isChain_cons_cons.mp h
      refine List.forall_mem_cons.mpr ⟨rfl, fun d hd => ?_⟩
      rw [ih hrest d hd, beq_iff_eq.mp hce]

/-- What a text is cut into are stretches by turns, if the first one is a stretch. -/
theorem alternate_of_isChain {words : List (List Char)} (hnil : [] ∉ words)
    (hchain : ∀ word ∈ words,
      word.IsChain fun a b => (isComponentChar a == isComponentChar b) = true)
    (hturn : words.IsChain fun a b => ∃ (ha : a ≠ []) (hb : b ≠ []),
      (isComponentChar (a.getLast ha) == isComponentChar (b.head hb)) = false)
    {inside : Bool} (hfirst : ∀ word ∈ words.head?, ∀ c ∈ word.head?, isComponentChar c = inside) :
    Alternate inside words := by
  induction words generalizing inside with
  | nil => trivial
  | cons word rest ih =>
      obtain ⟨hword, hrest⟩ := List.forall_mem_cons.mp hchain
      rw [List.mem_cons, not_or] at hnil
      obtain ⟨hne, hnil⟩ := hnil
      have hstretch : Stretch inside word := by
        cases word with
        | nil => exact absurd rfl hne
        | cons c tail =>
            refine ⟨List.cons_ne_nil _ _, fun d hd => ?_⟩
            rw [isComponentChar_eq_of_isChain hword d hd]
            exact hfirst _ rfl c rfl
      refine ⟨hstretch, ih hnil hrest hturn.tail fun next hnext d hd => ?_⟩
      cases rest with
      | nil => cases hnext
      | cons _ _ =>
          cases hnext
          obtain ⟨ha, hb, hdiffer⟩ := (List.isChain_cons_cons.mp hturn).1
          rw [hstretch.2 _ (List.getLast_mem ha), List.head_of_mem_head? hd] at hdiffer
          revert hdiffer
          cases inside <;> cases isComponentChar d <;> decide

theorem stretches_eq_iff {cs : List Char} {first : List Char} {rest : List (List Char)} :
    stretches cs = first :: rest ∧ first.all isComponentChar ↔
      cs = (first :: rest).flatten ∧ Alternate true (first :: rest) := by
  constructor
  · rintro ⟨hwords, hfirst⟩
    obtain ⟨hflatten, hnil, hchain, hturn⟩ := List.splitBy_eq_iff.mp hwords
    refine ⟨hflatten, alternate_of_isChain hnil hchain hturn ?_⟩
    rintro word ⟨⟩ c hc
    exact List.all_eq_true.mp hfirst c (List.mem_of_mem_head? hc)
  · rintro ⟨rfl, h⟩
    exact ⟨stretches_flatten h, List.all_eq_true.mpr h.1.2⟩

/-! ## The three forms -/

theorem isComponents_iff (cs : List Char) : isComponents cs ↔ cs ∈ components := by
  rw [components, pow_succ _ 2, pow_two]
  constructor
  · intro h
    unfold isComponents at h
    split at h
    · next a g b i c hwords =>
        simp only [Bool.and_eq_true, isGap_iff] at h
        obtain ⟨⟨ha, hg⟩, hi⟩ := h
        obtain ⟨rfl, ha, -, hb, -, hc, -⟩ := stretches_eq_iff.mp ⟨hwords, ha⟩
        exact ⟨a, mem_component.mpr ha, _, Or.inl ⟨_, ⟨g, hg, b, mem_component.mpr hb, rfl⟩,
          _, ⟨i, hi, c, mem_component.mpr hc, rfl⟩, rfl⟩, by simp⟩
    · next a g b i c j d hwords =>
        simp only [Bool.and_eq_true, isGap_iff] at h
        obtain ⟨⟨⟨ha, hg⟩, hi⟩, hj⟩ := h
        obtain ⟨rfl, ha, -, hb, -, hc, -, hd, -⟩ := stretches_eq_iff.mp ⟨hwords, ha⟩
        exact ⟨a, mem_component.mpr ha, _, Or.inr ⟨_, ⟨_, ⟨g, hg, b, mem_component.mpr hb, rfl⟩,
          _, ⟨i, hi, c, mem_component.mpr hc, rfl⟩, rfl⟩,
          _, ⟨j, hj, d, mem_component.mpr hd, rfl⟩, rfl⟩, by simp⟩
    · cases h
  · rintro ⟨a, ha, -, ⟨-, ⟨g, hg, b, hb, rfl⟩, -, ⟨i, hi, c, hc, rfl⟩, rfl⟩ |
      ⟨-, ⟨-, ⟨g, hg, b, hb, rfl⟩, -, ⟨i, hi, c, hc, rfl⟩, rfl⟩, -, ⟨j, hj, d, hd, rfl⟩, rfl⟩, rfl⟩
    · have hflatten : a ++ (g ++ b ++ (i ++ c)) = [a, g, b, i, c].flatten := by simp
      obtain ⟨hwords, hfirst⟩ := stretches_eq_iff.mpr ⟨hflatten, mem_component.mp ha,
        stretch_of_separator hg, mem_component.mp hb, stretch_of_separator hi,
        mem_component.mp hc, trivial⟩
      rw [isComponents, hwords]
      simp only [hfirst, (isGap_iff _).mpr hg, (isGap_iff _).mpr hi, Bool.and_self]
    · have hflatten : a ++ (g ++ b ++ (i ++ c) ++ (j ++ d)) = [a, g, b, i, c, j, d].flatten := by
        simp
      obtain ⟨hwords, hfirst⟩ := stretches_eq_iff.mpr ⟨hflatten, mem_component.mp ha,
        stretch_of_separator hg, mem_component.mp hb, stretch_of_separator hi,
        mem_component.mp hc, stretch_of_separator hj, mem_component.mp hd, trivial⟩
      rw [isComponents, hwords]
      simp only [hfirst, (isGap_iff _).mpr hg, (isGap_iff _).mpr hi, (isGap_iff _).mpr hj,
        Bool.and_self]

theorem Stretch.not_isBlank {cs : List Char} (h : Stretch true cs) :
    ∀ c ∈ cs, Text.isBlank c = false := by
  intro c hc
  rw [← Bool.not_eq_true]
  intro hblank
  exact Bool.noConfusion ((h.2 c hc).symm.trans (isComponentChar_of_isBlank hblank))

theorem exists_component_of_mem_pow {cs : List Char} {n : ℕ}
    (h : cs ∈ (separator * component) ^ (n + 1)) : ∃ front, ∃ b ∈ component, cs = front ++ b := by
  rw [pow_succ] at h
  obtain ⟨front, -, -, ⟨g, -, b, hb, rfl⟩, rfl⟩ := h
  exact ⟨front ++ g, b, hb, by simp⟩

/-- Components neither begin nor end with white space. -/
theorem trim_components {cs : List Char} (h : cs ∈ components) : Text.trim cs = cs := by
  obtain ⟨a, ha, rest, hrest, hcs⟩ := h
  obtain ⟨front, b, hb, rfl⟩ := hrest.elim exists_component_of_mem_pow exists_component_of_mem_pow
  obtain rfl : cs = a ++ (front ++ b) := hcs.symm
  have ha := mem_component.mp ha
  have hb := mem_component.mp hb
  refine Text.trim_eq_self (fun c hc => ?_) fun c hc => ?_
  · rw [List.head?_append_of_ne_nil _ ha.1] at hc
    exact ha.not_isBlank c (List.mem_of_mem_head? hc)
  · rw [← List.append_assoc, List.getLast?_append_of_ne_nil _ hb.1] at hc
    exact hb.not_isBlank c (List.mem_of_mem_getLast? hc)

theorem mem_functional {cs : List Char} :
    cs ∈ functional ↔ ∃ name front middle back,
      cs = name ++ '(' :: (front ++ middle ++ back ++ [')']) ∧
      String.ofList (name.map Text.foldLetter) ∈ functionNames ∧ (∀ c ∈ front, Text.isBlank c) ∧
      middle ∈ components ∧ ∀ c ∈ back, Text.isBlank c := by
  constructor
  · rintro ⟨-, ⟨-, ⟨-, ⟨-, ⟨name, hname, left, hleft, rfl⟩, front, hfront, rfl⟩,
      middle, hmiddle, rfl⟩, back, hback, rfl⟩, right, hright, rfl⟩
    rw [mem_oneOf_singleton.mp hleft, mem_oneOf_singleton.mp hright]
    exact ⟨name, front, middle, back, by simp, hname, hfront, hmiddle, hback⟩
  · rintro ⟨name, front, middle, back, rfl, hname, hfront, hmiddle, hback⟩
    exact ⟨_, ⟨_, ⟨_, ⟨_, ⟨name, hname, ['('], mem_oneOf_singleton.mpr rfl, rfl⟩,
      front, hfront, rfl⟩, middle, hmiddle, rfl⟩, back, hback, rfl⟩,
      [')'], mem_oneOf_singleton.mpr rfl, by simp⟩

/-- A name of a function has no bracket in it. -/
theorem ne_bracket_of_mem_name {name : List Char}
    (h : String.ofList (name.map Text.foldLetter) ∈ functionNames) : ∀ c ∈ name, c ≠ '(' := by
  rintro c hc rfl
  have hnames : ∀ text ∈ functionNames, '(' ∉ text.toList := by decide
  have hbracket : Text.foldLetter '(' ∈ name.map Text.foldLetter := List.mem_map_of_mem hc
  exact hnames _ h (by rwa [String.toList_ofList])

theorem isFunctional_iff (cs : List Char) : isFunctional cs ↔ cs ∈ functional := by
  rw [mem_functional]
  constructor
  · intro h
    unfold isFunctional at h
    split at h
    · cases h
    · next bracket rest hdrop =>
        -- The name ends at the first opening bracket, the whole text with the last closing one.
        simp only [Bool.and_eq_true, List.contains_iff_mem, beq_iff_eq] at h
        obtain ⟨⟨hname, hlast⟩, hcomponents⟩ := h
        obtain rfl : bracket = '(' := by
          have hhead := List.head_dropWhile_not (· != '(') (l := cs) (by simp [hdrop])
          simpa [hdrop] using hhead
        obtain ⟨front, back, hmiddle, hfront, hback⟩ := Text.exists_append_trim rest.dropLast
        refine ⟨cs.takeWhile (· != '('), front, Text.trim rest.dropLast, back, ?_, hname, hfront,
          (isComponents_iff _).mp hcomponents, hback⟩
        rw [← hmiddle, List.dropLast_append_getLast? _ hlast, ← hdrop,
          List.takeWhile_append_dropWhile]
  · rintro ⟨name, front, middle, back, rfl, hname, hfront, hmiddle, hback⟩
    have hbracket : ∀ c ∈ name, (c != '(') = true := by
      simpa using ne_bracket_of_mem_name hname
    have hdrop : (name ++ '(' :: (front ++ middle ++ back ++ [')'])).dropWhile (· != '(') =
        '(' :: (front ++ middle ++ back ++ [')']) := List.dropWhile_append_of_pos hbracket
    have htake : (name ++ '(' :: (front ++ middle ++ back ++ [')'])).takeWhile (· != '(') =
        name := by
      rw [List.takeWhile_append_of_pos hbracket]
      simp
    have hcomponents : isComponents (Text.trim (front ++ middle ++ back)) = true := by
      rw [Text.trim_append hfront hback, trim_components hmiddle, isComponents_iff]
      exact hmiddle
    rw [isFunctional, hdrop, htake]
    simp only [List.getLast?_concat, List.dropLast_concat, hcomponents,
      List.contains_iff_mem.mpr hname, beq_self_eq_true, Bool.and_self]

theorem isHex_iff (cs : List Char) : isHex cs ↔ cs ∈ hex := by
  constructor
  · intro h
    unfold isHex at h
    split at h
    · next digits =>
        simp only [Bool.and_eq_true, List.all_eq_true, List.contains_iff_mem] at h
        refine ⟨['#'], mem_oneOf_singleton.mpr rfl, digits, ⟨h.2, fun c hc => ?_⟩, rfl⟩
        simpa [isHexDigit, or_assoc] using h.1 c hc
    · cases h
  · rintro ⟨sign, hsign, digits, ⟨hlength, hdigits⟩, rfl⟩
    rw [mem_oneOf_singleton.mp hsign]
    simp only [isHex, List.singleton_append, Bool.and_eq_true, List.all_eq_true,
      List.contains_iff_mem]
    refine ⟨fun c hc => ?_, hlength⟩
    simpa [isHexDigit, or_assoc] using hdigits c hc

theorem isNamed_iff (cs : List Char) : isNamed cs ↔ cs ∈ named :=
  List.contains_iff_mem

/-! ## White space around colors -/

theorem not_isBlank_of_foldLetter {c : Char} (h : (Text.foldLetter c).isLower) :
    Text.isBlank c = false := by
  have hstretch : Stretch true [c] :=
    mem_component.mp ⟨List.cons_ne_nil _ _, fun d hd => by simp_all⟩
  exact hstretch.not_isBlank c List.mem_cons_self

theorem not_isBlank_of_hexDigit {c : Char}
    (h : c.isDigit ∨ ('a' ≤ c ∧ c ≤ 'f') ∨ ('A' ≤ c ∧ c ≤ 'F')) : Text.isBlank c = false := by
  refine Text.forall_char (P := fun c => (c.isDigit ∨ ('a' ≤ c ∧ c ≤ 'f') ∨ ('A' ≤ c ∧ c ≤ 'F')) →
    Text.isBlank c = false) (by decide) ?_ c h
  rintro c hlarge (h | h | h)
  · simp only [Char.isDigit, Bool.and_eq_true, decide_eq_true_eq] at h
    exact absurd h.2 (not_le_of_large hlarge (by decide) : ¬ c ≤ '9')
  · exact absurd h.2 (not_le_of_large hlarge (by decide))
  · exact absurd h.2 (not_le_of_large hlarge (by decide))

theorem not_isBlank_of_mem_name {name : List Char}
    (h : String.ofList (name.map Text.foldLetter) ∈ functionNames) :
    ∀ c ∈ name, Text.isBlank c = false := by
  intro c hc
  have hletters : ∀ text ∈ functionNames, text.toList.all Char.isLower := by decide
  refine not_isBlank_of_foldLetter (List.all_eq_true.mp (hletters _ h) _ ?_)
  rw [String.toList_ofList]
  exact List.mem_map_of_mem hc

theorem not_isBlank_of_mem_named {cs : List Char} (h : cs ∈ named) :
    ∀ c ∈ cs, Text.isBlank c = false := by
  intro c hc
  have hletters : ∀ text ∈ names, text.toList.all Char.isLower := by decide +kernel
  rw [← Text.isBlank_toLower]
  refine Text.not_isBlank_of_isLower (List.all_eq_true.mp (hletters _ h) _ ?_)
  rw [Text.lowerAscii, String.toList_map, String.toList_ofList]
  exact List.mem_map_of_mem hc

/-- Colors neither begin nor end with white space. -/
theorem trim_of_mem_colors {cs : List Char} (h : cs ∈ colors) : Text.trim cs = cs := by
  rcases h with (h | h) | h
  · obtain ⟨sign, hsign, digits, ⟨hlength, hdigits⟩, rfl⟩ := h
    have hne : digits ≠ [] := by
      rintro rfl
      exact absurd hlength (by decide)
    rw [mem_oneOf_singleton.mp hsign]
    refine Text.trim_eq_self (fun c hc => ?_) fun c hc => ?_
    · cases hc
      decide
    · rw [List.getLast?_append_of_ne_nil _ hne] at hc
      exact not_isBlank_of_hexDigit (hdigits c (List.mem_of_mem_getLast? hc))
  · obtain ⟨name, front, middle, back, rfl, hname, -⟩ := mem_functional.mp h
    have hne : name ≠ [] := by
      rintro rfl
      exact absurd hname (by decide)
    refine Text.trim_eq_self (fun c hc => ?_) fun c hc => ?_
    · rw [List.head?_append_of_ne_nil _ hne] at hc
      exact not_isBlank_of_mem_name hname c (List.mem_of_mem_head? hc)
    · rw [← List.cons_append, ← List.append_assoc, List.getLast?_concat] at hc
      cases hc
      decide
  · have hletters := not_isBlank_of_mem_named h
    exact Text.trim_eq_self (fun c hc => hletters c (List.mem_of_mem_head? hc))
      fun c hc => hletters c (List.mem_of_mem_getLast? hc)

/-! ## Case -/

/-- A language that does not tell `A` to `Z` from `a` to `z`. -/
def CaseBlind (L : Language Char) : Prop :=
  ∀ cs ds : List Char, cs.map Char.toLower = ds.map Char.toLower → cs ∈ L → ds ∈ L

namespace CaseBlind

variable {L M : Language Char}

theorem mul (hL : CaseBlind L) (hM : CaseBlind M) : CaseBlind (L * M) := by
  rintro cs ds h ⟨a, ha, b, hb, rfl⟩
  rw [List.map_append] at h
  obtain ⟨a', b', rfl, ha', hb'⟩ := List.map_eq_append_iff.mp h.symm
  exact ⟨a', hL a a' ha'.symm ha, b', hM b b' hb'.symm hb, rfl⟩

theorem add (hL : CaseBlind L) (hM : CaseBlind M) : CaseBlind (L + M) := by
  rintro cs ds h (hcs | hcs)
  · exact Or.inl (hL cs ds h hcs)
  · exact Or.inr (hM cs ds h hcs)

theorem pow (hL : CaseBlind L) (n : ℕ) : CaseBlind (L ^ n) := by
  induction n with
  | zero =>
      intro cs ds h hcs
      rw [pow_zero, Language.mem_one] at hcs ⊢
      simpa [hcs, eq_comm] using h
  | succ n ih =>
      rw [pow_succ]
      exact ih.mul hL

end CaseBlind

/-- What holds of a character in either case holds of all characters in either case. -/
theorem forall_of_map_toLower_eq {P : Char → Prop} (hP : ∀ c, P c.toLower ↔ P c) {cs ds : List Char}
    (h : cs.map Char.toLower = ds.map Char.toLower) (hcs : ∀ c ∈ cs, P c) : ∀ d ∈ ds, P d := by
  intro d hd
  obtain ⟨c, hc, heq⟩ : ∃ c ∈ cs, c.toLower = d.toLower := by
    rw [← List.mem_map, h]
    exact List.mem_map_of_mem hd
  rw [← hP, ← heq, hP]
  exact hcs c hc

theorem caseBlind_blanks : CaseBlind blanks := fun _ _ h hcs =>
  forall_of_map_toLower_eq (fun c => by rw [Text.isBlank_toLower]) h hcs

theorem caseBlind_oneOf {chars : List Char} (hchars : chars.all fun c => !c.isAlpha) :
    CaseBlind (oneOf chars) := by
  rintro cs ds h ⟨c, hc, rfl⟩
  have hother : c.isAlpha = false := by simpa using List.all_eq_true.mp hchars c hc
  obtain ⟨d, rest, rfl, hd, hrest⟩ := List.map_eq_cons_iff.mp h.symm
  rw [List.map_nil, List.map_eq_nil_iff] at hrest
  rw [hrest, ← Text.eq_of_toLower_eq hother hd.symm]
  exact ⟨c, hc, rfl⟩

theorem caseBlind_hexDigits : CaseBlind hexDigits := by
  rintro cs ds h ⟨hlength, hdigits⟩
  refine ⟨?_, forall_of_map_toLower_eq ?_ h hdigits⟩
  · rwa [← List.length_map Char.toLower, ← h, List.length_map]
  · refine Text.forall_char (by decide) fun c hlarge => ?_
    rw [Text.toLower_of_large hlarge]

theorem caseBlind_functionName : CaseBlind functionName := by
  have hfold : Text.foldLetter ∘ Char.toLower = Text.foldLetter := funext Text.foldLetter_toLower
  intro cs ds h hcs
  have hsame : cs.map Text.foldLetter = ds.map Text.foldLetter := by
    rw [← hfold, ← List.map_map, ← List.map_map, h]
  change String.ofList (ds.map Text.foldLetter) ∈ functionNames
  rw [← hsame]
  exact hcs

theorem isComponentChar_toLower (c : Char) : isComponentChar c.toLower = isComponentChar c := by
  refine Text.forall_char (P := fun c => isComponentChar c.toLower = isComponentChar c)
    (by decide) ?_ c
  intro c hlarge
  rw [Text.toLower_of_large hlarge]

theorem caseBlind_component : CaseBlind component := by
  intro cs ds h hcs
  rw [mem_component] at hcs ⊢
  refine ⟨fun hnil => ?_, forall_of_map_toLower_eq ?_ h hcs.2⟩
  · rw [hnil, List.map_nil, List.map_eq_nil_iff] at h
    exact hcs.1 h
  · exact fun c => by rw [isComponentChar_toLower]

theorem caseBlind_named : CaseBlind named := by
  intro cs ds h hcs
  have hsame : Text.lowerAscii (String.ofList cs) = Text.lowerAscii (String.ofList ds) := by
    simpa [Text.lowerAscii_eq_iff] using h
  change Text.lowerAscii (String.ofList ds) ∈ names
  rw [← hsame]
  exact hcs

theorem caseBlind_components : CaseBlind components := by
  have hseparator : CaseBlind separator :=
    (caseBlind_blanks.mul (caseBlind_oneOf (by decide))).mul caseBlind_blanks
  have hfurther := hseparator.mul caseBlind_component
  exact caseBlind_component.mul ((hfurther.pow 2).add (hfurther.pow 3))

theorem caseBlind_colors : CaseBlind colors := by
  have hhex : CaseBlind hex := (caseBlind_oneOf (by decide)).mul caseBlind_hexDigits
  have hopening : CaseBlind (functionName * oneOf ['('] * blanks) :=
    (caseBlind_functionName.mul (caseBlind_oneOf (by decide))).mul caseBlind_blanks
  have hclosing : CaseBlind (oneOf [')']) := caseBlind_oneOf (by decide)
  have hfunctional : CaseBlind functional :=
    ((hopening.mul caseBlind_components).mul caseBlind_blanks).mul hclosing
  exact (hhex.add hfunctional).add caseBlind_named

/-! ## What is taken for a color -/

theorem isValid_iff_trim (s : String) : isValid s ↔ Text.trim s.toList ∈ colors := by
  simp only [isValid, Bool.or_eq_true, isHex_iff, isFunctional_iff, isNamed_iff]
  rfl

theorem isValid_iff (s : String) : isValid s ↔ s.toList ∈ blanks * colors * blanks := by
  rw [isValid_iff_trim]
  constructor
  · intro h
    obtain ⟨front, back, hs, hfront, hback⟩ := Text.exists_append_trim s.toList
    exact ⟨_, ⟨front, hfront, _, h, rfl⟩, back, hback, hs.symm⟩
  · rintro ⟨-, ⟨front, hfront, color, hcolor, rfl⟩, back, hback, hs⟩
    rw [← show front ++ color ++ back = s.toList from hs, Text.trim_append hfront hback,
      trim_of_mem_colors hcolor]
    exact hcolor

theorem isValid_eq_of_lowerAscii_eq {s t : String} (h : Text.lowerAscii s = Text.lowerAscii t) :
    isValid s = isValid t := by
  rw [Text.lowerAscii_eq_iff] at h
  have hblind : CaseBlind (blanks * colors * blanks) :=
    (caseBlind_blanks.mul caseBlind_colors).mul caseBlind_blanks
  rw [Bool.eq_iff_iff, isValid_iff, isValid_iff]
  exact ⟨hblind _ _ h, hblind _ _ h.symm⟩

theorem isValid_append {front back : String} (hfront : front.toList ∈ blanks)
    (hback : back.toList ∈ blanks) (s : String) : isValid (front ++ s ++ back) = isValid s := by
  rw [Bool.eq_iff_iff, isValid_iff_trim, isValid_iff_trim, String.toList_append,
    String.toList_append, Text.trim_append hfront hback]

/-- The texts that are taken for colors are the three forms with white space around them. Neither
the case of `A` to `Z` nor the white space matters. -/
theorem valid_iff_mem_colors :
    (∀ s, isValid s ↔ Text.trim s.toList ∈ colors) ∧
      (∀ s, isValid s ↔ s.toList ∈ blanks * colors * blanks) ∧
      (∀ s t, Text.lowerAscii s = Text.lowerAscii t → isValid s = isValid t) ∧
      ∀ front s back : String, front.toList ∈ blanks → back.toList ∈ blanks →
        isValid (front ++ s ++ back) = isValid s :=
  ⟨isValid_iff_trim, isValid_iff, fun _ _ => isValid_eq_of_lowerAscii_eq,
    fun _ s _ hfront hback => isValid_append hfront hback s⟩

/-- A text with spaces of two kinds is a color, and is one as well with some letters in the other
case and with white space around it. -/
theorem valid_iff_mem_colors_mixed :
    "okLCH( 40% .1\u2003, 3e2/0.5 )".toList ∈ blanks * colors * blanks ∧
      isValid "OKlch( 40% .1\u2003, 3E2/0.5 )" = true ∧
      isValid ("\n " ++ "okLCH( 40% .1\u2003, 3e2/0.5 )" ++ "\u00a0") = true := by
  obtain ⟨-, hlanguage, hcase, hblank⟩ := valid_iff_mem_colors
  have hvalid : isValid "okLCH( 40% .1\u2003, 3e2/0.5 )" = true := by decide +kernel
  have hlower : Text.lowerAscii "OKlch( 40% .1\u2003, 3E2/0.5 )" =
      Text.lowerAscii "okLCH( 40% .1\u2003, 3e2/0.5 )" :=
    (Text.lowerAscii_eq_iff _ _).mpr (by decide +kernel)
  have hfront : "\n ".toList ∈ blanks := List.all_eq_true.mp (by decide)
  have hback : "\u00a0".toList ∈ blanks := List.all_eq_true.mp (by decide)
  exact ⟨(hlanguage _).mp hvalid, (hcase _ _ hlower).trans hvalid,
    (hblank _ _ _ hfront hback).trans hvalid⟩

end MetricScript.Color
