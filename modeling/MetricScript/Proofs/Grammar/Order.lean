import Mathlib.Data.List.Basic
import Mathlib.Data.List.Pairwise
import MetricScript.Proofs.Grammar.Layout
import MetricScript.Script.OfTree

/-! # Operators come back in the order written

A layout spreads the operators of a node over a list for each of them. Taking the lists together
only changes the order of the tokens, and since every token says where it begins, sorting restores
it. -/

namespace MetricScript

/-- The rank of which the operators of a tier are. -/
def Tier.rank : Tier → Rank
  | .logical => .logical
  | .comparison => .comparison
  | .additive => .additive
  | .multiplicative => .multiplicative

theorem Tier.ofRule?_rule (t : Tier) : Rank.ofRule? (Level.tier t).rule = some t.rank := by
  cases t <;> rfl

theorem Rank.ofRule?_eq_none {rule : String}
    (h : rule ∉ ["logicalExpression", "comparisonExpression", "additiveExpression",
      "multiplicativeExpression"]) : ofRule? rule = none := by
  unfold ofRule?
  split
  · simp at h
  · simp at h
  · simp at h
  · simp at h
  · rfl

theorem Tier.operand_rank (t : Tier) : t.rank.operand = t.operand.rule := by
  cases t <;> rfl

/-- A rank has each operator of its tier once, under the kind of its token. -/
theorem Tier.operators_rank (t : Tier) : ∃ operators : List Operator,
    t.rank.operators = operators.map (fun op => (op.token, op)) ∧ operators.Nodup ∧
      ∀ op, op ∈ operators ↔ op.tier = t := by
  refine ⟨t.rank.operators.map Prod.snd, ?_, ?_, ?_⟩
  · cases t <;> rfl
  · cases t <;> decide
  · intro op
    cases t <;> cases op <;> decide

theorem Links.tier_of_mem {t : Tier} {op : Operator} :
    (rest : Links t) → op ∈ rest.operators → op.tier = t
  | .nil, h => absurd h List.not_mem_nil
  | .cons first hfirst p rest, h => by
    rcases List.mem_cons.mp h with rfl | h
    · exact hfirst
    · exact rest.tier_of_mem h

/-- Spreading what is written over lists by operator only changes the order. -/
theorem perm_flatMap_filter {operators : List Operator} (hnodup : operators.Nodup)
    {written : List (Token × Operator)} (h : ∀ pair ∈ written, pair.2 ∈ operators) :
    (operators.flatMap fun op => written.filter fun pair => pair.2 = op).Perm written := by
  induction operators generalizing written with
  | nil =>
      cases written with
      | nil => exact List.Perm.refl _
      | cons pair rest => cases h pair List.mem_cons_self
  | cons op operators ih =>
      obtain ⟨hop, hnodup⟩ := List.nodup_cons.mp hnodup
      have hothers : ∀ pair ∈ written.filter (fun pair => !decide (pair.2 = op)),
          pair.2 ∈ operators := by
        intro pair hpair
        obtain ⟨hmem, hne⟩ := List.mem_filter.mp hpair
        exact (List.mem_cons.mp (h pair hmem)).resolve_left (by simpa using hne)
      -- The tokens of the other operators are none of this one.
      have hrest : (operators.flatMap fun other => written.filter fun pair => pair.2 = other) =
          operators.flatMap fun other =>
            (written.filter fun pair => !decide (pair.2 = op)).filter fun pair =>
              pair.2 = other := by
        refine List.flatMap_congr fun other hother => ?_
        rw [List.filter_filter]
        refine List.filter_congr fun pair _ => ?_
        by_cases hpair : pair.2 = other
        · have hne : pair.2 ≠ op := fun h => hop (h ▸ hpair ▸ hother)
          simp [hpair, hpair ▸ hne]
        · simp [hpair]
      rw [List.flatMap_cons, hrest]
      exact ((ih hnodup hothers).append_left _).trans (List.filter_append_perm _ written)

/-- Where a token begins, as far as sorting is concerned. -/
def Token.start (t : Token) : Nat :=
  t.offset.getD 0

theorem InOrder.isSome_offset {tokens : List Token} (h : InOrder tokens) {t : Token}
    (ht : t ∈ tokens) : t.offset.isSome := by
  obtain ⟨offsets, hoffsets, -⟩ := h
  have hmem : t.offset ∈ offsets.map some := hoffsets ▸ List.mem_map_of_mem ht
  obtain ⟨offset, -, hoffset⟩ := List.mem_map.mp hmem
  rw [← hoffset, Option.isSome_some]

theorem InOrder.pairwise_start {tokens : List Token} (h : InOrder tokens) :
    tokens.Pairwise fun t u => t.start < u.start := by
  obtain ⟨offsets, hoffsets, hincreasing⟩ := h
  have hstart : tokens.map (fun t => t.start) = offsets := by
    have h := congrArg (List.map fun offset => offset.getD 0) hoffsets
    simpa [List.map_map, Function.comp_def, Token.start] using h
  rw [← hstart] at hincreasing
  exact List.pairwise_map.mp hincreasing

/-- Sorting by offsets puts tokens back into the order in which they begin. -/
theorem mergeSort_of_inOrder {spread written : List (Token × Operator)}
    (hperm : spread.Perm written) (horder : InOrder (written.map Prod.fst)) :
    spread.mergeSort (fun a b => a.1.start ≤ b.1.start) = written := by
  have hwritten : written.Pairwise fun a b => a.1.start < b.1.start := by
    have h := horder.pairwise_start
    rwa [List.pairwise_map] at h
  -- No two tokens begin at the same place, so there is only one order.
  have hapart : ∀ a ∈ written, ∀ b ∈ written, a.1.start = b.1.start → a = b := by
    have : Std.Symm fun a b : Token × Operator => a.1.start = b.1.start → a = b :=
      ⟨fun _ _ h hsame => (h hsame.symm).symm⟩
    exact List.Pairwise.forall_of_forall (fun _ _ _ => rfl)
      (hwritten.imp fun hlt hsame => absurd hsame (Nat.ne_of_lt hlt))
  have hsorted : (spread.mergeSort fun a b => a.1.start ≤ b.1.start).Pairwise
      fun a b => a.1.start ≤ b.1.start := by
    have h : (spread.mergeSort fun a b => a.1.start ≤ b.1.start).Pairwise
        fun a b => decide (a.1.start ≤ b.1.start) = true :=
      List.pairwise_mergeSort
        (fun _ _ _ hab hbc => by simpa using Nat.le_trans (by simpa using hab) (by simpa using hbc))
        (fun a b => by simpa using Nat.le_total a.1.start b.1.start) spread
    simpa using h
  have hpermuted : (spread.mergeSort fun a b => a.1.start ≤ b.1.start).Perm written :=
    (List.mergeSort_perm spread _).trans hperm
  refine hpermuted.eq_of_pairwise (fun a b ha hb hab hba => ?_) hsorted
    (hwritten.imp fun hlt => Nat.le_of_lt hlt)
  exact hapart a (hpermuted.mem_iff.mp ha) b hb (Nat.le_antisymm hab hba)

/-- The tokens of a node of a tier are those written between its operands. -/
theorem Node.Joins.perm_operatorTokens {n : Node} {t : Tier} {operands : List Node}
    {written : List (Token × Operator)} (hn : n.Joins t operands written)
    (htier : ∀ pair ∈ written, pair.2.tier = t) : (t.rank.operatorTokens n).Perm written := by
  obtain ⟨operators, hoperators, hnodup, hmem⟩ := t.operators_rank
  have htokens : t.rank.operatorTokens n =
      operators.flatMap fun op => written.filter fun pair => pair.2 = op := by
    rw [Rank.operatorTokens, hoperators, List.flatMap_map]
    refine List.flatMap_congr fun op hop => ?_
    have hlist : n.tokens op.token = (written.filter fun pair => pair.2 = op).map Prod.fst := by
      rw [Node.tokens, hn.tokens op ((hmem op).mp hop), tokensOf, List.filterMap_map]
      exact congrFun (List.filterMap_eq_map (f := Prod.fst)) _
    change (n.tokens op.token).map (fun t => (t, op)) = _
    rw [hlist, List.map_map]
    refine (List.map_congr_left fun pair hpair => ?_).trans (List.map_id _)
    have hop' : pair.2 = op := by simpa using (List.mem_filter.mp hpair).2
    exact Prod.ext rfl hop'.symm
  rw [htokens]
  exact perm_flatMap_filter hnodup fun pair hpair => (hmem pair.2).mpr (htier pair hpair)

/-- The operators of a node of a tier are read in the order written. -/
theorem Node.Joins.operatorsOf {n : Node} {t : Tier} {operands : List Node} {tokens : List Token}
    {operators : List Operator} (hn : n.Joins t operands (tokens.zip operators))
    (hlength : tokens.length = operators.length) (horder : InOrder tokens)
    (htier : ∀ op ∈ operators, op.tier = t) : t.rank.operatorsOf n = operators := by
  have hperm : (t.rank.operatorTokens n).Perm (tokens.zip operators) :=
    hn.perm_operatorTokens fun pair hpair => htier _ (List.of_mem_zip hpair).2
  have hall : (t.rank.operatorTokens n).all fun pair => pair.1.offset.isSome := by
    refine List.all_eq_true.mpr fun pair hpair => ?_
    exact horder.isSome_offset (List.of_mem_zip (hperm.mem_iff.mp hpair)).1
  have hfirst : (tokens.zip operators).map Prod.fst = tokens :=
    List.map_fst_zip (Nat.le_of_eq hlength)
  have hsorted : (t.rank.operatorTokens n).mergeSort (fun a b => a.1.start ≤ b.1.start) =
      tokens.zip operators :=
    mergeSort_of_inOrder hperm (hfirst.symm ▸ horder)
  rw [Rank.operatorsOf, if_pos hall]
  exact (congrArg (List.map Prod.snd) hsorted).trans
    (List.map_snd_zip (Nat.le_of_eq hlength.symm))

end MetricScript
