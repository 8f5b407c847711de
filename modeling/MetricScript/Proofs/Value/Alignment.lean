import MetricScript.Proofs.Series.Lookup
import MetricScript.Proofs.Value.Sound
import MetricScript.Series.Transform

/-! # What an operator answers, time by time

How operands are read, over which times the answer runs, and what is made of the two values at one
time. Operators go through the points of their operands in one pass; what they answer is the table
that this gives. -/

namespace MetricScript

open Series (orZero)

/-! ## How operands are read -/

/-- What an operator takes its operands for: numbers, things to compare, or truths. -/
inductive Operator.Family where
  | arithmetic
  | comparison
  | logic
  deriving DecidableEq, Repr

def Operator.family : Operator → Operator.Family
  | .add => .arithmetic
  | .subtract => .arithmetic
  | .multiply => .arithmetic
  | .divide => .arithmetic
  | .equal => .comparison
  | .notEqual => .comparison
  | .lessThan => .comparison
  | .greaterThan => .comparison
  | .lessThanEqual => .comparison
  | .greaterThanEqual => .comparison
  | .and => .logic
  | .or => .logic

/-- A series is read as it is. Anything else counts as one value: as its number in arithmetic, which
reads nothing but numbers; as its number, or one or zero for a truth value, in a comparison, and
otherwise as no value; as one or zero for its truth in logic. -/
def Operator.Family.read? : Operator.Family → Option Value → Option Reading
  | _, some (.series s) => some (.series s)
  | .arithmetic, some (.scalar (.number x)) => some (.constant (some x))
  | .arithmetic, _ => none
  | .comparison, some (.scalar (.number x)) => some (.constant (some x))
  | .comparison, some (.scalar (.bool b)) => some (.constant (some (indicator b)))
  | .comparison, _ => some (.constant none)
  | .logic, operand => some (.constant (some (indicator (operand.any Value.truthy))))

namespace Reading

/-- The times that an answer has: those of the series among the operands, or else the present
moment. -/
def times (now : Timestamp) : Reading → Reading → List Timestamp
  | .series s, .series t => s.unionTimes t
  | .series s, .constant _ => s.times
  | .constant _, .series t => t.times
  | .constant _, .constant _ => [now]

/-- The value of an operand at a time. A point without a value has none, a series without a point
counts as zero. -/
def valueAt : Reading → Timestamp → Option Float
  | .series s, time => (s.find? time).getD (some 0)
  | .constant x, _ => x

end Reading

/-! ## What is made of two values -/

namespace Operator

/-- What an operator makes of two values. No value counts as zero in arithmetic and in an order, is
told from every number by equality, and is false. Nothing is divided by zero. -/
def point (op : Operator) (x y : Option Float) : Float :=
  match op with
  | .add => orZero x + orZero y
  | .subtract => orZero x - orZero y
  | .multiply => orZero x * orZero y
  | .divide => if orZero y == 0 then 0 else orZero x / orZero y
  | .equal => indicator (x == y)
  | .notEqual => indicator (x != y)
  | .lessThan => indicator (orZero x < orZero y)
  | .greaterThan => indicator (orZero x > orZero y)
  | .lessThanEqual => indicator (orZero x ≤ orZero y)
  | .greaterThanEqual => indicator (orZero x ≥ orZero y)
  | .and => indicator (truthyPoint x && truthyPoint y)
  | .or => indicator (truthyPoint x || truthyPoint y)

/-- Whether a comparison holds of two texts. -/
def holds (op : Operator) (a b : String) : Bool :=
  match op with
  | .equal => a = b
  | .notEqual => a ≠ b
  | .lessThan => a < b
  | .greaterThan => a > b
  | .lessThanEqual => a ≤ b
  | .greaterThanEqual => a ≥ b
  | _ => false

/-- The answer as far as it is a matter of texts among the operands: a comparison of two texts is
about these, and one text equals nothing else. -/
def textual? (op : Operator) : Option String → Option String → Option Bool
  | some a, some b => if op.family = .comparison then some (op.holds a b) else none
  | none, none => none
  | _, _ => if op = .equal then some false else if op = .notEqual then some true else none

/-- What an operator answers to operands that have two values at a time. -/
def answer (op : Operator) (left right : Option Value) (x y : Option Float) : Float :=
  match op.textual? (left.bind Value.string?) (right.bind Value.string?) with
  | some b => indicator b
  | none => op.point x y

end Operator

/-! ## Operators answer that -/

/-- What is combined is the table of the combined values. -/
theorem Reading.combine_eq_tabulate (f : Option Float → Option Float → Option Float) {a b : Reading}
    (ha : ∀ s, a = .series s → s.Increasing) (hb : ∀ s, b = .series s → s.Increasing)
    (now : Timestamp) :
    combine f now a b =
      .tabulate (times now a b) fun time => f (a.valueAt time) (b.valueAt time) := by
  cases a with
  | series s =>
      cases b with
      | series t => exact Series.align_eq_tabulate (ha s rfl) (hb t rfl) f
      | constant y => exact Series.mapValues_eq_tabulate (ha s rfl) fun x => f x y
  | constant x =>
      cases b with
      | series t => exact Series.mapValues_eq_tabulate (hb t rfl) fun y => f x y
      | constant y => rfl

/-! ### What the readings are -/

theorem Operator.Family.read?_arithmetic (operand : Option Value) :
    read? .arithmetic operand = Reading.arithmetic? operand := by
  rcases operand with _ | ((_ | _ | _ | _) | _ | _ | _) <;> rfl

theorem Operator.Family.read?_comparison (operand : Option Value) :
    read? .comparison operand = some (Reading.compared operand) := by
  rcases operand with _ | ((_ | _ | _ | _) | _ | _ | _) <;> rfl

/-- In logic an operand is read by its truth; one that is missing has none, which is false too. -/
theorem Operator.Family.read?_logic (operand : Option Value) : ∃ r,
    read? .logic operand = some r ∧ (Reading.logical operand = r ∨
      Reading.logical operand = .constant none ∧ r = .constant (some (indicator false))) := by
  rcases operand with _ | ((_ | _ | _ | _) | _ | _ | _)
  · exact ⟨_, rfl, Or.inr ⟨rfl, rfl⟩⟩
  all_goals exact ⟨_, rfl, Or.inl rfl⟩

theorem Operator.Family.eq_series_of_read? {family : Operator.Family} {operand : Option Value}
    {s : Series} (h : family.read? operand = some (.series s)) : operand = some (.series s) := by
  cases family with
  | arithmetic =>
      rw [read?_arithmetic] at h
      exact Reading.eq_series_of_arithmetic? h
  | comparison =>
      rw [read?_comparison] at h
      exact Reading.eq_series_of_compared (Option.some.inj h)
  | logic =>
      obtain ⟨r, hread, hr⟩ := read?_logic operand
      obtain rfl := Option.some.inj (hread.symm.trans h)
      rcases hr with hr | ⟨-, hr⟩
      · exact Reading.eq_series_of_logical hr
      · cases hr

/-! ### Each family -/

namespace Operator

variable {op : Operator} {left right : Option Value}

theorem answer_of_not_comparison (op : Operator) (h : op.family ≠ .comparison)
    (left right : Option Value) (x y : Option Float) : op.answer left right x y = op.point x y := by
  have htextual : ∀ a b, op.textual? a b = none := by
    intro a b
    cases a <;> cases b <;> cases op <;> simp_all [textual?, family]
  rw [answer, htextual]

theorem apply_of_arithmetic (h : op.family = .arithmetic) (left right : Option Value)
    (now : Timestamp) :
    op.apply left right now =
      match Reading.arithmetic? left, Reading.arithmetic? right with
      | some a, some b => Reading.combine (fun x y => some (op.point x y)) now a b
      | _, _ => .empty := by
  cases op <;> cases h <;> rfl

theorem apply_of_logic (h : op.family = .logic) (left right : Option Value) (now : Timestamp) :
    op.apply left right now =
      Reading.combine (fun x y => some (op.point x y)) now
        (Reading.logical left) (Reading.logical right) := by
  cases op <;> cases h <;> rfl

theorem apply_of_comparison (h : op.family = .comparison) (left right : Option Value)
    (now : Timestamp) : op.apply left right now = op.compare left right now := by
  cases op <;> cases h <;> rfl

theorem string?_eq_none {operand : Option Value}
    (h : ∀ a, operand = some (.scalar (.string a)) → False) :
    operand.bind Value.string? = none := by
  rcases operand with _ | ((_ | _ | a | _) | _ | _ | _)
  case some.scalar.string => exact (h a rfl).elim
  all_goals rfl

theorem compareTexts_of_comparison (h : op.family = .comparison) (a b : String) :
    op.compareTexts a b = some (op.holds a b) := by
  cases op <;> cases h <;> refine congrArg some (Bool.eq_iff_iff.mpr ?_) <;>
    simp only [holds, Bool.not_eq_true', decide_eq_false_iff_not, decide_eq_true_eq, beq_iff_eq,
      bne_iff_ne, ne_eq, gt_iff_lt, ge_iff_le, String.not_lt]

theorem comparePoints_of_comparison (h : op.family = .comparison) (x y : Option Float) :
    indicator (op.comparePoints x y) = op.point x y := by
  cases op <;> cases h <;> rfl

theorem answer_of_texts (h : op.family = .comparison) {a b : String}
    (hleft : left.bind Value.string? = some a) (hright : right.bind Value.string? = some b)
    (x y : Option Float) : op.answer left right x y = indicator (op.holds a b) := by
  rw [answer, hleft, hright, textual?, if_pos h]

theorem answer_of_no_text (hleft : left.bind Value.string? = none)
    (hright : right.bind Value.string? = none) (x y : Option Float) :
    op.answer left right x y = op.point x y := by
  rw [answer, hleft, hright, textual?]

/-- One operand is a text and the other is not. -/
def OneText (left right : Option Value) : Prop :=
  (left.bind Value.string?).isSome ≠ (right.bind Value.string?).isSome

theorem textual?_of_one (op : Operator) {a b : Option String} (h : a.isSome ≠ b.isSome) :
    op.textual? a b = if op.isEquality then some (op == .notEqual) else none := by
  cases a <;> cases b
  · simp at h
  · cases op <;> rfl
  · cases op <;> rfl
  · simp at h

/-- With a text on one side only an equality is settled by that, and any other comparison is not. -/
theorem answer_of_one_text (op : Operator) (hone : OneText left right) (x y : Option Float) :
    op.answer left right x y =
      if op.isEquality then indicator (op == .notEqual) else op.point x y := by
  rw [answer, textual?_of_one op hone]
  cases op.isEquality <;> rfl

theorem unequalTo_eq_left (op : Operator) (other : Option Value) (now : Timestamp)
    (y : Option Float) :
    op.unequalTo other now = Reading.combine (fun _ _ => some (indicator (op == .notEqual))) now
      (Reading.compared other) (.constant y) := by
  rcases other with _ | (_ | _ | _ | _) <;> rfl

theorem unequalTo_eq_right (op : Operator) (other : Option Value) (now : Timestamp)
    (x : Option Float) :
    op.unequalTo other now = Reading.combine (fun _ _ => some (indicator (op == .notEqual))) now
      (.constant x) (Reading.compared other) := by
  rcases other with _ | (_ | _ | _ | _) <;> rfl

theorem compareReadings_eq (h : op.family = .comparison) (left right : Option Value)
    (now : Timestamp) :
    compare.compareReadings op left right now =
      Reading.combine (fun x y => some (op.point x y)) now
        (Reading.compared left) (Reading.compared right) := by
  simp only [compare.compareReadings, comparePoints_of_comparison h]

theorem compare_eq (h : op.family = .comparison) (left right : Option Value) (now : Timestamp) :
    op.compare left right now =
      Reading.combine (fun x y => some (op.answer left right x y)) now
        (Reading.compared left) (Reading.compared right) := by
  unfold compare
  split
  · rename_i a b
    have hleft : (some (Value.scalar (.string a))).bind Value.string? = some a := rfl
    have hright : (some (Value.scalar (.string b))).bind Value.string? = some b := rfl
    simp only [answer_of_texts h hleft hright, compareTexts_of_comparison h]
    rfl
  · rename_i a hother
    have hone : OneText (some (.scalar (.string a))) right := by
      simp [OneText, string?_eq_none hother, Value.string?]
    simp only [answer_of_one_text op hone]
    split
    · exact unequalTo_eq_right op right now _
    · exact compareReadings_eq h _ right now
  · rename_i b hother
    have hone : OneText left (some (.scalar (.string b))) := by
      simp [OneText, string?_eq_none hother, Value.string?]
    simp only [answer_of_one_text op hone]
    split
    · exact unequalTo_eq_left op left now _
    · exact compareReadings_eq h left _ now
  · rename_i hleft hright _
    simp only [answer_of_no_text (string?_eq_none hleft) (string?_eq_none hright)]
    exact compareReadings_eq h left right now

/-- To logic no value is as good as a false one. -/
theorem point_of_logic_none (h : op.family = .logic) (x : Option Float) :
    op.point none x = op.point (some (indicator false)) x ∧
      op.point x none = op.point x (some (indicator false)) := by
  have hfalse : truthyPoint (some (indicator false)) = truthyPoint none := by decide
  cases op <;> cases h <;> simp only [point, hfalse, and_self]

theorem combine_logic (h : op.family = .logic) {a b : Reading}
    (ha : Family.read? .logic left = some a) (hb : Family.read? .logic right = some b)
    (now : Timestamp) :
    Reading.combine (fun x y => some (op.point x y)) now (Reading.logical left)
        (Reading.logical right) =
      Reading.combine (fun x y => some (op.point x y)) now a b := by
  obtain ⟨a', ha', hleft⟩ := Family.read?_logic left
  obtain rfl := Option.some.inj (ha'.symm.trans ha)
  obtain ⟨b', hb', hright⟩ := Family.read?_logic right
  obtain rfl := Option.some.inj (hb'.symm.trans hb)
  -- One side after the other, the other side being whatever it is.
  have hfirst (r : Reading) : Reading.combine (fun x y => some (op.point x y)) now
      (Reading.logical left) r = Reading.combine (fun x y => some (op.point x y)) now a' r := by
    rcases hleft with hleft | ⟨hleft, rfl⟩ <;> rw [hleft]
    cases r <;> simp only [Reading.combine, (point_of_logic_none h _).1]
  have hsecond (r : Reading) : Reading.combine (fun x y => some (op.point x y)) now r
      (Reading.logical right) = Reading.combine (fun x y => some (op.point x y)) now r b' := by
    rcases hright with hright | ⟨hright, rfl⟩ <;> rw [hright]
    cases r <;> simp only [Reading.combine, (point_of_logic_none h _).2]
  rw [hfirst, hsecond]

theorem apply_of_read? {a b : Reading} (ha : op.family.read? left = some a)
    (hb : op.family.read? right = some b) (now : Timestamp) :
    op.apply left right now =
      Reading.combine (fun x y => some (op.answer left right x y)) now a b := by
  cases h : op.family with
  | arithmetic =>
      have hanswer := answer_of_not_comparison op (by simp [h]) left right
      rw [h, Family.read?_arithmetic] at ha hb
      simp only [apply_of_arithmetic h, ha, hb, hanswer]
  | comparison =>
      rw [h, Family.read?_comparison] at ha hb
      obtain rfl := Option.some.inj ha
      obtain rfl := Option.some.inj hb
      rw [apply_of_comparison h, compare_eq h]
  | logic =>
      have hanswer := answer_of_not_comparison op (by simp [h]) left right
      rw [h] at ha hb
      simp only [apply_of_logic h, combine_logic h ha hb, hanswer]

theorem apply_of_unread (h : op.family.read? left = none ∨ op.family.read? right = none)
    (now : Timestamp) : op.apply left right now = .empty := by
  cases hfamily : op.family with
  | arithmetic =>
      rw [hfamily, Family.read?_arithmetic, Family.read?_arithmetic] at h
      rw [apply_of_arithmetic hfamily]
      rcases h with h | h
      · rw [h]
      · cases Reading.arithmetic? left <;> rw [h]
  | comparison => simp [hfamily, Family.read?_comparison] at h
  | logic =>
      have hread (operand : Option Value) : Family.read? .logic operand ≠ none := by
        obtain ⟨r, hread, -⟩ := Family.read?_logic operand
        simp [hread]
      rw [hfamily] at h
      rcases h with h | h
      · exact (hread left h).elim
      · exact (hread right h).elim

/-- An operator answers the table of its answers over the times of its operands: over the times of
two series together, over the times of one, or at the present moment. An operand that cannot be
read leaves nothing. -/
theorem apply_eq_tabulate (op : Operator) {left right : Option Value}
    (hleft : SeriesOperand Series.Increasing left) (hright : SeriesOperand Series.Increasing right)
    (now : Timestamp) :
    op.apply left right now =
      match op.family.read? left, op.family.read? right with
      | some a, some b =>
        .tabulate (Reading.times now a b) fun time =>
          some (op.answer left right (a.valueAt time) (b.valueAt time))
      | _, _ => .empty := by
  split
  · rename_i a b ha hb
    rw [apply_of_read? ha hb]
    refine Reading.combine_eq_tabulate _ ?_ ?_ now
    · rintro s rfl
      exact hleft s (Family.eq_series_of_read? ha)
    · rintro s rfl
      exact hright s (Family.eq_series_of_read? hb)
  · rename_i hread
    refine apply_of_unread ?_ now
    cases ha : op.family.read? left with
    | none => exact Or.inl rfl
    | some a =>
        cases hb : op.family.read? right with
        | none => exact Or.inr rfl
        | some b => exact (hread a b ha hb).elim

/-- Equality tells a point without a value from one that a series lacks: the first differs from
zero, the second does not. -/
theorem apply_eq_tabulate_sparse :
    SeriesOperand Series.Increasing
      (some (.series ⟨[⟨1, some 10⟩, ⟨2, none⟩, ⟨4, none⟩]⟩)) ∧
    SeriesOperand Series.Increasing (some (.series ⟨[⟨2, none⟩, ⟨3, some 0⟩]⟩)) ∧
    equal.apply (some (.series ⟨[⟨1, some 10⟩, ⟨2, none⟩, ⟨4, none⟩]⟩))
        (some (.series ⟨[⟨2, none⟩, ⟨3, some 0⟩]⟩)) 9 =
      ⟨[⟨1, some 0⟩, ⟨2, some 1⟩, ⟨3, some 1⟩, ⟨4, some 0⟩]⟩ := by
  have hleft : SeriesOperand Series.Increasing
      (some (.series ⟨[⟨1, some 10⟩, ⟨2, none⟩, ⟨4, none⟩]⟩)) := by
    rintro s ⟨⟩
    simp [Series.Increasing]
  have hright : SeriesOperand Series.Increasing
      (some (.series ⟨[⟨2, none⟩, ⟨3, some 0⟩]⟩)) := by
    rintro s ⟨⟩
    simp [Series.Increasing]
  have htimes : Series.unionTimes ⟨[⟨1, some 10⟩, ⟨2, none⟩, ⟨4, none⟩]⟩
      ⟨[⟨2, none⟩, ⟨3, some 0⟩]⟩ = [1, 2, 3, 4] := by
    have hset : ([1, 2, 4] : List Timestamp).toFinset ∪ [2, 3].toFinset =
        [1, 2, 3, 4].toFinset := by decide
    have hsort := List.toFinset_sort (· ≤ ·) (l := ([1, 2, 3, 4] : List Timestamp)) (by decide)
    exact (congrArg (fun times => times.sort) hset).trans (hsort.mpr (by decide))
  refine ⟨hleft, hright, (apply_eq_tabulate equal hleft hright 9).trans ?_⟩
  simp only [Family.read?, Reading.times, htimes]
  rfl

end Operator

end MetricScript
