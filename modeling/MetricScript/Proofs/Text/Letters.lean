import Mathlib.Data.List.TakeWhile
import MetricScript.Text.Blank
import MetricScript.Text.Fold

/-! # Letters and white space

Beyond the first 128 characters there are no letters of which the case is looked at, but for two
that fold into `k` and `s`. White space is not changed by case, and trimming takes off what there is
of it at both ends. -/

namespace MetricScript.Text

/-! ## The first 128 characters, and all others -/

/-- A property of all characters may be shown of the first 128 one by one. -/
theorem forall_char {P : Char → Prop} (hlow : ∀ n < 128, P (Char.ofNat n))
    (hhigh : ∀ c : Char, 128 ≤ c.toNat → P c) (c : Char) : P c := by
  by_cases h : c.toNat < 128
  · rw [← Char.ofNat_toNat c]
    exact hlow c.toNat h
  · exact hhigh c (Nat.le_of_not_lt h)

theorem toLower_of_large {c : Char} (h : 128 ≤ c.toNat) : c.toLower = c := by
  have hupper : ¬ (c.val ≥ 'A'.val ∧ c.val ≤ 'Z'.val) := by
    rintro ⟨-, hle⟩
    have hle : c.toNat ≤ 90 := hle
    omega
  exact dif_neg hupper

theorem foldLetter_of_large {c : Char} (h : 128 ≤ c.toNat) :
    foldLetter c = if c = '\u212a' then 'k' else if c = '\u017f' then 's' else c := by
  rw [foldLetter, toLower_of_large h]

/-! ## Case -/

@[simp] theorem foldLetter_toLower (c : Char) : foldLetter c.toLower = foldLetter c :=
  forall_char (P := fun c => foldLetter c.toLower = foldLetter c) (by decide)
    (fun c h => by rw [toLower_of_large h]) c

@[simp] theorem isBlank_toLower (c : Char) : isBlank c.toLower = isBlank c :=
  forall_char (P := fun c => isBlank c.toLower = isBlank c) (by decide)
    (fun c h => by rw [toLower_of_large h]) c

theorem isLower_iff (c : Char) : c.isLower ↔ 'a' ≤ c ∧ c ≤ 'z' :=
  Bool.and_eq_true_iff.trans (and_congr decide_eq_true_iff decide_eq_true_iff)

theorem not_isBlank_of_isLower {c : Char} (h : c.isLower) : isBlank c = false := by
  refine forall_char (P := fun c => c.isLower → isBlank c = false) (by decide) ?_ c h
  intro c hlarge hlower
  have hle : c.toNat ≤ 122 := ((isLower_iff c).mp hlower).2
  omega

/-- What differs from a letter up to case differs from it altogether. -/
theorem eq_of_toLower_eq {c d : Char} (hc : c.isAlpha = false) (h : c.toLower = d.toLower) :
    c = d := by
  have hsame : c.toLower = c :=
    forall_char (P := fun c => c.isAlpha = false → c.toLower = c) (by decide)
      (fun c h _ => toLower_of_large h) c hc
  have hletter : d.toLower = d ∨ d.toLower.isAlpha :=
    forall_char (P := fun d => d.toLower = d ∨ d.toLower.isAlpha) (by decide)
      (fun d h => Or.inl (toLower_of_large h)) d
  rcases hletter with hd | hd
  · rw [← hsame, h, hd]
  · rw [← h, hsame, hc] at hd
    cases hd

theorem lowerAscii_eq_iff (s t : String) :
    lowerAscii s = lowerAscii t ↔ s.toList.map Char.toLower = t.toList.map Char.toLower := by
  rw [lowerAscii, lowerAscii, ← String.toList_inj, String.toList_map, String.toList_map]

/-! ## Trimming -/

theorem trimEnd_append {back : List Char} (h : ∀ c ∈ back, isBlank c) (cs : List Char) :
    trimEnd (cs ++ back) = trimEnd cs := by
  rw [trimEnd, trimEnd, List.reverse_append, List.dropWhile_append_of_pos]
  simpa using h

/-- White space around a text does not matter once it is trimmed. -/
theorem trim_append {front back : List Char} (hfront : ∀ c ∈ front, isBlank c)
    (hback : ∀ c ∈ back, isBlank c) (cs : List Char) : trim (front ++ cs ++ back) = trim cs := by
  rw [trim, trim, List.append_assoc, List.dropWhile_append_of_pos hfront, List.dropWhile_append]
  split
  · next hcs =>
      rw [List.isEmpty_iff.mp hcs, List.dropWhile_eq_nil_iff.mpr hback]
  · exact trimEnd_append hback _

/-- A text that neither begins nor ends with white space is left as it is. -/
theorem trim_eq_self {cs : List Char} (hhead : ∀ c ∈ cs.head?, isBlank c = false)
    (hlast : ∀ c ∈ cs.getLast?, isBlank c = false) : trim cs = cs := by
  have hstart : cs.dropWhile isBlank = cs := by
    cases cs with
    | nil => rfl
    | cons c rest => rw [List.dropWhile_cons_of_neg (by simp [hhead c rfl])]
  rw [trim, hstart, trimEnd]
  rcases List.eq_nil_or_concat cs with rfl | ⟨front, c, rfl⟩
  · rfl
  · have hc : isBlank c = false := hlast c (by simp)
    simp [hc]

/-- Trimming takes off white space only. -/
theorem exists_append_trim (cs : List Char) :
    ∃ front back, cs = front ++ trim cs ++ back ∧ (∀ c ∈ front, isBlank c) ∧
      ∀ c ∈ back, isBlank c := by
  let middle := cs.dropWhile isBlank
  refine ⟨cs.takeWhile isBlank, (middle.reverse.takeWhile isBlank).reverse, ?_, ?_, ?_⟩
  · have hmiddle : trimEnd middle ++ (middle.reverse.takeWhile isBlank).reverse = middle := by
      rw [trimEnd, ← List.reverse_append, List.takeWhile_append_dropWhile, List.reverse_reverse]
    change cs = cs.takeWhile isBlank ++ trimEnd middle ++ _
    rw [List.append_assoc, hmiddle, List.takeWhile_append_dropWhile]
  · exact fun c hc => List.mem_takeWhile_imp hc
  · exact fun c hc => List.mem_takeWhile_imp (List.mem_reverse.mp hc)

end MetricScript.Text
