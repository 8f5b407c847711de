import MetricScript.Proofs.Grammar.Reading
import MetricScript.Proofs.Tree.Height

/-! # How deep expressions may be nested in a text

Brackets in an expression take seven or eight nodes each, so that a tree soon has the height that a
text of it may have. -/

namespace MetricScript

/-! ## Heights of phrases -/

mutual

/-- The height of a layout that has no more than it needs. -/
def Phrase.height {l : Level} : Phrase l → ℕ
  | .expression p => p.height + 1
  | .joined first rest => max first.height rest.height + 1
  | .negated p => p.height + 1
  | .plain p => p.height + 1
  | .group p => p.height + 1
  | .array items => Phrase.listHeight items + 1
  | .call _ arguments _ => Phrase.listHeight arguments + 1
  | .name _ _ => 1
  | .number _ _ _ => 1
  | .string _ _ => 1
  | .bool _ => 1
termination_by structural p => p

def Links.height {t : Tier} : Links t → ℕ
  | .nil => 0
  | .cons _ _ p rest => max p.height rest.height
termination_by structural rest => rest

/-- A list is a node of its own, unless nothing is listed. -/
def Phrase.listHeight : List (Phrase .expression) → ℕ
  | [] => 0
  | p :: rest => max (p.height + 1) (Phrase.listHeight rest)
termination_by structural ps => ps

end

mutual

/-- How many brackets there are around what is nested deepest. -/
def Phrase.nesting {l : Level} : Phrase l → ℕ
  | .expression p => p.nesting
  | .joined first rest => max first.nesting rest.nesting
  | .negated p => p.nesting
  | .plain p => p.nesting
  | .group p => p.nesting + 1
  | .array items => Phrase.listNesting items
  | .call _ arguments _ => Phrase.listNesting arguments
  | .name _ _ => 0
  | .number _ _ _ => 0
  | .string _ _ => 0
  | .bool _ => 0
termination_by structural p => p

def Links.nesting {t : Tier} : Links t → ℕ
  | .nil => 0
  | .cons _ _ p rest => max p.nesting rest.nesting
termination_by structural rest => rest

def Phrase.listNesting : List (Phrase .expression) → ℕ
  | [] => 0
  | p :: rest => max (p.nesting + 1) (Phrase.listNesting rest)
termination_by structural ps => ps

end

/-! ## Nesting and height

The number of nodes that a phrase takes on its own depends on its level, so what is shown of all
phrases counts the nodes above it in a whole expression as well. Operators and lists may be missing,
and then do not count. -/

mutual

/-- Brackets take seven nodes at least. -/
theorem Phrase.nesting_le {l : Level} : (p : Phrase l) → 7 * (p.nesting + 1) ≤ p.height + l.depth
  | .expression p => by
    have h := p.nesting_le
    simp only [Phrase.nesting, Phrase.height, Level.depth] at h ⊢
    omega
  | .joined (t := t) first rest => by
    have hfirst := first.nesting_le
    have hrest := rest.nesting_le
    have hdepth : t.operand.depth = (Level.tier t).depth + 1 := by cases t <;> rfl
    simp only [Phrase.nesting, Phrase.height]
    omega
  | .negated p => by
    have h := p.nesting_le
    simp only [Phrase.nesting, Phrase.height]
    omega
  | .plain p => by
    have h := p.nesting_le
    simp only [Phrase.nesting, Phrase.height, Level.depth] at h ⊢
    omega
  | .group p => by
    have h := p.nesting_le
    simp only [Phrase.nesting, Phrase.height, Level.depth] at h ⊢
    omega
  | .array items => by
    have h := Phrase.listNesting_le items
    simp only [Phrase.nesting, Phrase.height, Level.depth]
    omega
  | .call _ arguments _ => by
    have h := Phrase.listNesting_le arguments
    simp only [Phrase.nesting, Phrase.height, Level.depth]
    omega
  | .name _ _ => Nat.le_refl 7
  | .number _ _ _ => Nat.le_refl 7
  | .string _ _ => Nat.le_refl 7
  | .bool _ => Nat.le_refl 7

theorem Links.nesting_le {t : Tier} : (rest : Links t) →
    rest.nesting = 0 ∨ 7 * (rest.nesting + 1) ≤ rest.height + t.operand.depth
  | .nil => Or.inl rfl
  | .cons _ _ p rest => by
    have hp := p.nesting_le
    have hrest := rest.nesting_le
    simp only [Links.nesting, Links.height]
    omega

theorem Phrase.listNesting_le : (ps : List (Phrase .expression)) →
    Phrase.listNesting ps = 0 ∨ 7 * Phrase.listNesting ps + 1 ≤ Phrase.listHeight ps
  | [] => Or.inl rfl
  | p :: rest => by
    have hp := p.nesting_le
    have hrest := Phrase.listNesting_le rest
    simp only [Phrase.listNesting, Phrase.listHeight, Level.depth] at hp ⊢
    omega

end

/-! ## No layout is lower -/

theorem Node.height_lt_of_mem {n m : Node} {key : String} (h : .node m ∈ n.elements key) :
    m.height < n.height := by
  obtain ⟨rule, children⟩ := n
  have hbelow := height_le_iff.mp (le_refl (mk rule children).height)
  rw [elements, Node.children] at h
  cases hlookup : children.lookup key with
  | none =>
      rw [hlookup] at h
      exact absurd h List.not_mem_nil
  | some elements =>
      rw [hlookup] at h
      exact Nat.lt_succ_of_le (hbelow _ (NameMap.mem_of_lookup hlookup) m h)

theorem Node.Consists.height_lt {n m : Node} {rule : String} {parts : List (String × List Element)}
    (hn : n.Consists rule parts) (key : String) (hkey : key ∈ Node.vocabulary)
    (hm : .node m ∈ (parts.lookup key).getD []) : m.height < n.height :=
  Node.height_lt_of_mem ((hn.elements key hkey).symm ▸ hm)

theorem Listing.height_lt {n m : Node} {key : String} {nodes : List Node} {listing : List Element}
    (hlisting : Listing key nodes listing) (hn : n.elements key = listing) (hm : m ∈ nodes) :
    m.height + 1 < n.height := by
  cases hlisting with
  | omitted => exact absurd hm List.not_mem_nil
  | @listed list _ hlist =>
      have hlower := hlist.height_lt "expression" (by decide) (List.mem_map_of_mem hm)
      have hupper : list.height < n.height := Node.height_lt_of_mem (hn ▸ List.mem_singleton_self _)
      omega

mutual

theorem Phrase.Layout.height_le {l : Level} {p : Phrase l} {n : Node} :
    p.Layout n → p.height ≤ n.height
  | .expression hp hn => by
    have hchild := hn.height_lt "logicalExpression" (by decide) List.mem_cons_self
    exact Nat.lt_of_le_of_lt hp.height_le hchild
  | .joined hfirst hrest _ _ hn => by
    obtain ⟨hm, hnodes⟩ := List.forall_mem_cons.mp fun m hm =>
      Node.height_lt_of_mem (hn.operands.symm ▸ List.mem_map_of_mem hm)
    exact Nat.lt_of_le_pred n.height_pos (max_le (hfirst.height_le.trans (Nat.le_pred_of_lt hm))
      (hrest.height_le fun m hm => Nat.le_pred_of_lt (hnodes m hm)))
  | .negated hp hn => by
    have hchild := hn.height_lt "unaryExpression" (by decide) List.mem_cons_self
    exact Nat.lt_of_le_of_lt hp.height_le hchild
  | .plain hp hn => by
    have hchild := hn.height_lt "primary" (by decide) List.mem_cons_self
    exact Nat.lt_of_le_of_lt hp.height_le hchild
  | .group hp hn => by
    have hchild := hn.height_lt "expression" (by decide) List.mem_cons_self
    exact Nat.lt_of_le_of_lt hp.height_le hchild
  | .array hitems hlisting hn => by
    have hlisted := hn.elements "arrayElements" (by decide)
    exact Nat.lt_of_le_pred n.height_pos
      (hitems.listHeight_le fun m hm => Nat.le_pred_of_lt (hlisting.height_lt hlisted hm))
  | .call harguments (.intro hlisting _ _ _ hn) => by
    have hlisted := hn.elements "args" (by decide)
    exact Nat.lt_of_le_pred n.height_pos
      (harguments.listHeight_le fun m hm => Nat.le_pred_of_lt (hlisting.height_lt hlisted hm))
  | .name _ _ _ => n.height_pos
  | .number _ => n.height_pos
  | .string _ => n.height_pos
  | .bool _ => n.height_pos

theorem Links.Layout.height_le {t : Tier} {rest : Links t} {nodes : List Node} {k : ℕ} :
    rest.Layout nodes → (∀ m ∈ nodes, m.height ≤ k) → rest.height ≤ k
  | .nil, _ => Nat.zero_le k
  | .cons hp hrest, h =>
    max_le (hp.height_le.trans (h _ List.mem_cons_self))
      (hrest.height_le fun m hm => h m (List.mem_cons_of_mem _ hm))

theorem Phrase.Layouts.listHeight_le {ps : List (Phrase .expression)} {nodes : List Node} {k : ℕ} :
    Phrase.Layouts ps nodes → (∀ m ∈ nodes, m.height + 1 ≤ k) → Phrase.listHeight ps ≤ k
  | .nil, _ => Nat.zero_le k
  | .cons hp hrest, h =>
    max_le ((Nat.succ_le_succ hp.height_le).trans (h _ List.mem_cons_self))
      (hrest.listHeight_le fun m hm => h m (List.mem_cons_of_mem _ hm))

end

/-! ## Layouts of least height -/

mutual

/-- In no place of a phrase are there more operators than a 64-bit word counts. -/
def Phrase.Fits {l : Level} : Phrase l → Prop
  | .expression p => p.Fits
  | .joined first rest => first.Fits ∧ rest.Fits ∧ rest.operators.length ≤ Decimal.wordMax
  | .negated p => p.Fits
  | .plain p => p.Fits
  | .group p => p.Fits
  | .array items => Phrase.AllFit items
  | .call _ arguments _ => Phrase.AllFit arguments
  | .name _ _ => True
  | .number _ _ _ => True
  | .string _ _ => True
  | .bool _ => True
termination_by structural p => p

def Links.Fits {t : Tier} : Links t → Prop
  | .nil => True
  | .cons _ _ p rest => p.Fits ∧ rest.Fits
termination_by structural rest => rest

def Phrase.AllFit : List (Phrase .expression) → Prop
  | [] => True
  | p :: rest => p.Fits ∧ Phrase.AllFit rest
termination_by structural ps => ps

end

/-- A tree that can be written, of a height below a bound. -/
structure Node.Below (n : Node) (bound : ℕ) : Prop where
  wellFormed : n.WellFormed
  height_lt : n.height < bound

/-- A token that can be written, or a node below a bound. -/
def Element.Below (element : Element) (bound : ℕ) : Prop :=
  match element with
  | .node n => n.Below bound
  | .token t => t.Fits

@[simp] theorem Element.below_node {n : Node} {bound : ℕ} :
    (Element.node n).Below bound ↔ n.Below bound := Iff.rfl

@[simp] theorem Element.below_token {t : Token} {bound : ℕ} :
    (Element.token t).Below bound ↔ t.Fits := Iff.rfl

@[simp] theorem Token.fits_of_none (image : String) : (⟨image, none⟩ : Token).Fits :=
  fun _ h => nomatch h

theorem Node.Below.mono {n : Node} {k bound : ℕ} (h : n.Below k) (hle : k ≤ bound) :
    n.Below bound :=
  ⟨h.wellFormed, h.height_lt.trans_le hle⟩

theorem Element.Below.wellFormed {element : Element} {bound : ℕ} (h : element.Below bound) :
    element.WellFormed := by
  cases element with
  | node n => exact .node (Node.Below.wellFormed h)
  | token t => exact .token h

/-- A node with its children in order of name. -/
def Node.laid (rule : String) (parts : List (String × List Element)) : Node :=
  .mk (some rule) (NameMap.sortEntries parts)

theorem Node.consists_laid (rule : String) {parts : List (String × List Element)}
    (h : (parts.map Prod.fst).Nodup) : (laid rule parts).Consists rule parts :=
  ⟨rfl, fun key _ => congrArg (Option.getD · []) (NameMap.lookup_sortEntries h key)⟩

theorem Node.below_laid (rule : String) {parts : List (String × List Element)} {bound : ℕ}
    (hbound : 0 < bound) (h : ∀ entry ∈ parts, ∀ element ∈ entry.2, element.Below bound) :
    (laid rule parts).Below (bound + 1) := by
  have hsorted : ∀ entry ∈ NameMap.sortEntries parts, ∀ element ∈ entry.2, element.Below bound :=
    fun entry hentry => h entry (NameMap.mem_of_mem_sortEntries hentry)
  obtain ⟨k, rfl⟩ := Nat.exists_eq_add_one_of_ne_zero hbound.ne'
  refine ⟨.mk (NameMap.ascending_sortEntries parts) fun entry hentry element helement =>
    (hsorted entry hentry element helement).wellFormed, Nat.lt_succ_of_le ?_⟩
  refine Node.height_le_iff.mpr fun entry hentry m hm => ?_
  exact Nat.le_of_lt_succ (hsorted entry hentry (.node m) hm).height_lt

theorem Node.joins_laid (t : Tier) (operands : List Node) (tokens : List (Token × Operator)) :
    (laid (Level.tier t).rule (joining t operands tokens).children).Joins t operands tokens := by
  have hnodup : ((joining t operands tokens).children.map Prod.fst).Nodup := by
    have hkeys : (joining t operands tokens).children.map Prod.fst =
        t.operand.rule :: (Named.members : List Operator).map Operator.token := rfl
    rw [hkeys]
    cases t <;> decide
  have hn := consists_laid (Level.tier t).rule hnodup
  have hjoining := joins_joining t operands tokens
  exact ⟨rfl, (hn.elements _ (by cases t <;> decide)).trans hjoining.operands, fun op hop =>
    (hn.elements _ (by cases op <;> decide)).trans (hjoining.tokens op hop)⟩

theorem Node.below_laid_joining {t : Tier} {operands : List Node}
    {tokens : List (Token × Operator)} {bound : ℕ} (hbound : 0 < bound)
    (hoperands : ∀ m ∈ operands, m.Below bound) (htokens : ∀ pair ∈ tokens, pair.1.Fits) :
    (laid (Level.tier t).rule (joining t operands tokens).children).Below (bound + 1) := by
  refine below_laid _ hbound (List.forall_mem_cons.mpr ⟨List.forall_mem_map.mpr hoperands, ?_⟩)
  refine List.forall_mem_map.mpr fun op _ => List.forall_mem_map.mpr fun pair hpair => ?_
  exact htokens pair (List.mem_of_mem_filter hpair)

theorem Token.fits_of_mem_row {count : ℕ} (h : count ≤ Decimal.wordMax) :
    ∀ t ∈ Token.row count, t.Fits := by
  refine List.forall_mem_map.mpr fun i hi => ?_
  rintro _ ⟨⟩
  exact ((List.mem_range.mp hi).trans_le h).le

theorem Listing.exists_below (key : String) {ps : List (Phrase .expression)} {nodes : List Node}
    (h : Phrase.Layouts ps nodes) (hnodes : ∀ m ∈ nodes, m.Below (Phrase.listHeight ps)) :
    ∃ listing, Listing key nodes listing ∧
      ∀ element ∈ listing, element.Below (Phrase.listHeight ps + 1) := by
  cases h with
  | nil => exact ⟨[], .omitted, fun _ h => absurd h List.not_mem_nil⟩
  | @cons p rest m nodes hp hrest =>
      have hpos : 0 < Phrase.listHeight (p :: rest) :=
        (Nat.succ_pos p.height).trans_le (le_max_left _ _)
      have hlist : (Node.laid key [("expression", (m :: nodes).map .node)]).Below _ :=
        Node.below_laid key hpos
          (List.forall_mem_singleton.mpr (List.forall_mem_map.mpr hnodes))
      exact ⟨_, .listed (Node.consists_laid key (by simp)), List.forall_mem_singleton.mpr hlist⟩

mutual

/-- Every phrase has a layout that can be written and is no higher than it must be. -/
theorem Phrase.exists_below {l : Level} :
    (p : Phrase l) → p.Fits → ∃ n, p.Layout n ∧ n.Below (p.height + 1)
  | .expression p, h =>
    let ⟨m, hp, hm⟩ := p.exists_below h
    ⟨.laid _ [("logicalExpression", [.node m])], .expression hp (Node.consists_laid _ (by simp)),
      Node.below_laid _ (Nat.succ_pos _) (by simpa [Phrase.height] using hm)⟩
  | .joined (t := t) first rest, h => by
    obtain ⟨hfirst, hrest, hlength⟩ : first.Fits ∧ rest.Fits ∧ _ := h
    obtain ⟨m, hfirst, hm⟩ := first.exists_below hfirst
    obtain ⟨nodes, hrest, hnodes⟩ := rest.exists_below hrest
    -- The operators are placed one after the other, from the offset zero on.
    let tokens := Token.row rest.operators.length
    have hoperands : ∀ operand ∈ m :: nodes, operand.Below (max first.height rest.height + 1) :=
      List.forall_mem_cons.mpr ⟨hm.mono (Nat.succ_le_succ (le_max_left _ _)),
        fun operand h => (hnodes operand h).mono (Nat.succ_le_succ (le_max_right _ _))⟩
    have htokens : ∀ pair ∈ tokens.zip rest.operators, pair.1.Fits := fun pair hpair =>
      Token.fits_of_mem_row hlength _ (List.of_mem_zip hpair).1
    exact ⟨_, .joined hfirst hrest (Token.length_row _) (Token.inOrder_row _)
      (Node.joins_laid t (m :: nodes) (tokens.zip rest.operators)),
      Node.below_laid_joining (Nat.succ_pos _) hoperands htokens⟩
  | .negated p, h =>
    let ⟨m, hp, hm⟩ := p.exists_below h
    ⟨.laid _ [("Not", [.token ⟨"!", none⟩]), ("unaryExpression", [.node m])],
      .negated hp (Node.consists_laid _ (by simp)),
      Node.below_laid _ (Nat.succ_pos _) (by simpa [Phrase.height] using hm)⟩
  | .plain p, h =>
    let ⟨m, hp, hm⟩ := p.exists_below h
    ⟨.laid _ [("primary", [.node m])], .plain hp (Node.consists_laid _ (by simp)),
      Node.below_laid _ (Nat.succ_pos _) (by simpa [Phrase.height] using hm)⟩
  | .group p, h =>
    let ⟨m, hp, hm⟩ := p.exists_below h
    ⟨.laid _ [("LParen", [.token ⟨"(", none⟩]), ("expression", [.node m]),
        ("RParen", [.token ⟨")", none⟩])],
      .group hp (Node.consists_laid _ (by simp)),
      Node.below_laid _ (Nat.succ_pos _) (by simpa [Phrase.height] using hm)⟩
  | .array items, h =>
    let ⟨_, hitems, hnodes⟩ := Phrase.exists_all_below items h
    let ⟨listing, hlisting, hbelow⟩ := Listing.exists_below "arrayElements" hitems hnodes
    ⟨.laid _ [("LBracket", [.token ⟨"[", none⟩]), ("arrayElements", listing),
        ("RBracket", [.token ⟨"]", none⟩])],
      .array hitems hlisting (Node.consists_laid _ (by simp)),
      Node.below_laid _ (Nat.succ_pos _)
        (by simpa [Phrase.height] using hbelow)⟩
  | .call callee arguments members, h =>
    let ⟨_, harguments, hnodes⟩ := Phrase.exists_all_below arguments h
    let ⟨listing, hlisting, hbelow⟩ := Listing.exists_below "args" harguments hnodes
    ⟨.laid _ [("Plot", (Token.ofImages callee.plots).map .token),
        ("Identifier", (Token.ofImages (callee.identifiers ++ members)).map .token),
        ("LParen", [.token ⟨"(", none⟩]), ("args", listing), ("RParen", [.token ⟨")", none⟩]),
        ("Dot", (Token.ofImages members).map .token)],
      .call harguments (.intro hlisting (Token.map_image_ofImages _) (Token.map_image_ofImages _)
        (by simp [Token.ofImages]) (Node.consists_laid _ (by simp))),
      Node.below_laid _ (Nat.succ_pos _)
        (by simpa [Token.ofImages, or_imp, forall_and, Phrase.height] using hbelow)⟩
  | .name first members, _ =>
    ⟨.laid _ [("Identifier", (Token.ofImages (first :: members)).map .token),
        ("Dot", (Token.ofImages members).map .token)],
      .name (Token.map_image_ofImages _) (by simp [Token.ofImages])
        (Node.consists_laid _ (by simp)),
      Node.below_laid _ Nat.one_pos (by simp [Token.ofImages])⟩
  | .number image x _, _ =>
    ⟨.laid _ [("NumberLiteral", [.token ⟨image, none⟩])],
      .number (Node.consists_laid _ (by simp)),
      Node.below_laid _ Nat.one_pos (by simp)⟩
  | .string quote text, _ =>
    ⟨.laid _ [("StringLiteral", [.token ⟨quote.around text, none⟩])],
      .string (Node.consists_laid _ (by simp)),
      Node.below_laid _ Nat.one_pos (by simp)⟩
  | .bool b, _ =>
    ⟨.laid _ [(if b then "TrueLiteral" else "FalseLiteral", [.token ⟨"", none⟩])],
      .bool (Node.consists_laid _ (by simp)),
      Node.below_laid _ Nat.one_pos (by simp)⟩

theorem Links.exists_below {t : Tier} : (rest : Links t) → rest.Fits →
    ∃ nodes, rest.Layout nodes ∧ ∀ m ∈ nodes, m.Below (rest.height + 1)
  | .nil, _ => ⟨[], .nil, fun _ h => absurd h List.not_mem_nil⟩
  | .cons _ _ p rest, h =>
    let ⟨_, hp, hm⟩ := p.exists_below h.1
    let ⟨_, hrest, hnodes⟩ := rest.exists_below h.2
    ⟨_, .cons hp hrest, List.forall_mem_cons.mpr
      ⟨hm.mono (Nat.succ_le_succ (le_max_left _ _)),
        fun m hm => (hnodes m hm).mono (Nat.succ_le_succ (le_max_right _ _))⟩⟩

theorem Phrase.exists_all_below : (ps : List (Phrase .expression)) → Phrase.AllFit ps →
    ∃ nodes, Phrase.Layouts ps nodes ∧ ∀ m ∈ nodes, m.Below (Phrase.listHeight ps)
  | [], _ => ⟨[], .nil, fun _ h => absurd h List.not_mem_nil⟩
  | p :: rest, h =>
    let ⟨_, hp, hm⟩ := p.exists_below h.1
    let ⟨_, hrest, hnodes⟩ := Phrase.exists_all_below rest h.2
    ⟨_, .cons hp hrest, List.forall_mem_cons.mpr
      ⟨hm.mono (le_max_left _ _), fun m hm => (hnodes m hm).mono (le_max_right _ _)⟩⟩

end

end MetricScript
