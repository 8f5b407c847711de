import MetricScript.Proofs.Grammar.Nesting
import MetricScript.Proofs.Grammar.PlotCall

/-! # Which scripts can be handed over as texts

A script can be handed over as a text unless the least height of its trees is above the limit for
texts, as it is from five brackets on that stand one within the other. -/

namespace MetricScript

namespace Sentence

/-! ## Heights of scripts -/

/-- The expressions of a statement. -/
def phrases : Sentence → List (Phrase .expression)
  | .assignment _ value => value.toList
  | .highlight arguments => arguments
  | .expression e => [e]

/-- The least height of what a statement consists of. -/
def bodyHeight : Sentence → ℕ
  | .assignment _ value => max 1 (Phrase.listHeight value.toList)
  | .highlight arguments => Phrase.listHeight arguments + 1
  | .expression e => e.height

/-- The least height of a tree of a script. -/
def scriptHeight : List Sentence → ℕ
  | [] => 1
  | sentence :: rest => max (sentence.bodyHeight + 2) (scriptHeight rest)

theorem scriptHeight_pos (sentences : List Sentence) : 0 < scriptHeight sentences := by
  cases sentences with
  | nil => exact Nat.one_pos
  | cons sentence rest => exact (Nat.succ_pos _).trans_le (le_max_left _ _)

theorem height_lt_listHeight {e : Phrase .expression} {ps : List (Phrase .expression)}
    (h : e ∈ ps) : e.height < Phrase.listHeight ps := by
  induction h with
  | head rest => exact (Nat.lt_succ_self e.height).trans_le (le_max_left _ _)
  | tail p _ ih => exact ih.trans_le (le_max_right _ _)

theorem height_le_bodyHeight {sentence : Sentence} {e : Phrase .expression}
    (h : e ∈ sentence.phrases) : e.height ≤ sentence.bodyHeight := by
  cases sentence with
  | assignment name value => exact (height_lt_listHeight h).le.trans (le_max_right _ _)
  | highlight arguments => exact (height_lt_listHeight h).le.trans (Nat.le_succ _)
  | expression e' => exact (congrArg Phrase.height (List.mem_singleton.mp h)).le

theorem bodyHeight_add_two_le {sentence : Sentence} {sentences : List Sentence}
    (h : sentence ∈ sentences) : sentence.bodyHeight + 2 ≤ scriptHeight sentences := by
  induction h with
  | head rest => exact le_max_left _ _
  | tail other _ ih => exact ih.trans (le_max_right _ _)

/-- Brackets in an expression take seven nodes at least in the tree of the script. -/
theorem nesting_le_scriptHeight {sentences : List Sentence} {sentence : Sentence}
    {e : Phrase .expression} (hsentence : sentence ∈ sentences) (he : e ∈ sentence.phrases) :
    7 * (e.nesting + 1) + 2 ≤ scriptHeight sentences := by
  have hnesting : 7 * (e.nesting + 1) ≤ e.height := e.nesting_le
  have hbody := height_le_bodyHeight he
  have hscript := bodyHeight_add_two_le hsentence
  omega

/-! ## No tree is lower -/

variable {sentence : Sentence} {sentences : List Sentence} {n root : Node}

theorem Body.bodyHeight_le (h : sentence.Body n) : sentence.bodyHeight ≤ n.height := by
  cases h with
  | assignment hvalue hn =>
      refine max_le n.height_pos (hvalue.listHeight_le fun m hm => ?_)
      exact hn.height_lt "expression" (by decide) (List.mem_map_of_mem hm)
  | highlight harguments hlisting hn =>
      have hlisted := hn.elements "args" (by decide)
      exact Nat.lt_of_le_pred n.height_pos
        (harguments.listHeight_le fun m hm => Nat.le_pred_of_lt (hlisting.height_lt hlisted hm))
  | expression he => exact he.height_le

theorem Layout.bodyHeight_lt (h : sentence.Layout n) : sentence.bodyHeight < n.height := by
  obtain ⟨-, body, hbody, hchild⟩ := h
  obtain ⟨rule, children⟩ := n
  have hmem : Element.node body ∈ children.flatMap Prod.snd := hchild ▸ List.mem_singleton_self _
  obtain ⟨entry, hentry, hmem⟩ := List.mem_flatMap.mp hmem
  have hbelow := Node.height_le_iff.mp (le_refl (Node.mk rule children).height) entry hentry body
    hmem
  exact Nat.lt_succ_of_le (hbody.bodyHeight_le.trans hbelow)

theorem Layouts.scriptHeight_le {nodes : List Node} {k : ℕ} (h : Layouts sentences nodes)
    (hk : 0 < k) (hnodes : ∀ m ∈ nodes, m.height < k) : scriptHeight sentences ≤ k := by
  induction h with
  | nil => exact hk
  | cons h hrest ih =>
      obtain ⟨hm, hnodes⟩ := List.forall_mem_cons.mp hnodes
      exact max_le (Nat.succ_le_of_lt (Nat.lt_of_le_of_lt h.bodyHeight_lt hm)) (ih hnodes)

theorem ScriptLayout.scriptHeight_le (h : ScriptLayout sentences root) :
    scriptHeight sentences ≤ root.height := by
  obtain ⟨nodes, hnodes, hroot⟩ := h
  exact hnodes.scriptHeight_le root.height_pos fun m hm =>
    hroot.height_lt "statement" (by decide) (List.mem_map_of_mem hm)

/-! ## Trees of least height -/

theorem exists_body_below (sentence : Sentence) (h : Phrase.AllFit sentence.phrases) :
    ∃ n, sentence.Body n ∧ n.Below (sentence.bodyHeight + 1) := by
  cases sentence with
  | assignment name value =>
      obtain ⟨nodes, hvalue, hnodes⟩ := Phrase.exists_all_below value.toList h
      refine ⟨.laid _ [("Identifier", [.token ⟨name, none⟩]), ("expression", nodes.map .node)],
        .assignment hvalue (Node.consists_laid _ (by simp)),
        Node.below_laid _ (Nat.one_pos.trans_le (le_max_left _ _)) ?_⟩
      have hbelow : ∀ m ∈ nodes, m.Below (max 1 (Phrase.listHeight value.toList)) := fun m hm =>
        (hnodes m hm).mono (le_max_right _ _)
      simpa [bodyHeight] using hbelow
  | highlight arguments =>
      obtain ⟨nodes, harguments, hnodes⟩ := Phrase.exists_all_below arguments h
      obtain ⟨listing, hlisting, hbelow⟩ := Listing.exists_below "args" harguments hnodes
      exact ⟨.laid _ [("args", listing)],
        .highlight harguments hlisting (Node.consists_laid _ (by simp)),
        Node.below_laid _ (Nat.succ_pos _) (List.forall_mem_singleton.mpr hbelow)⟩
  | expression e =>
      obtain ⟨n, he, hn⟩ := e.exists_below h.1
      exact ⟨n, .expression he, hn⟩

theorem exists_layout_below (sentence : Sentence) (h : Phrase.AllFit sentence.phrases) :
    ∃ n, sentence.Layout n ∧ n.Below (sentence.bodyHeight + 2) := by
  obtain ⟨body, hbody, hbelow⟩ := sentence.exists_body_below h
  exact ⟨.laid "statement" [("body", [.node body])], ⟨rfl, body, hbody, rfl⟩,
    Node.below_laid _ (Nat.succ_pos _) (by simpa using hbelow)⟩

theorem exists_layouts_below (sentences : List Sentence)
    (h : ∀ sentence ∈ sentences, Phrase.AllFit sentence.phrases) :
    ∃ nodes, Layouts sentences nodes ∧ ∀ m ∈ nodes, m.Below (scriptHeight sentences) := by
  induction sentences with
  | nil => exact ⟨[], .nil, fun _ h => absurd h List.not_mem_nil⟩
  | cons sentence rest ih =>
      obtain ⟨hsentence, hrest⟩ := List.forall_mem_cons.mp h
      obtain ⟨m, hlayout, hm⟩ := sentence.exists_layout_below hsentence
      obtain ⟨nodes, hlayouts, hnodes⟩ := ih hrest
      exact ⟨m :: nodes, .cons hlayout hlayouts, List.forall_mem_cons.mpr
        ⟨hm.mono (le_max_left _ _), fun m hm => (hnodes m hm).mono (le_max_right _ _)⟩⟩

/-- Every script has a tree that can be written and is no higher than it must be. -/
theorem exists_scriptLayout_below (sentences : List Sentence)
    (h : ∀ sentence ∈ sentences, Phrase.AllFit sentence.phrases) :
    ∃ root, ScriptLayout sentences root ∧ root.WellFormed ∧
      root.height = scriptHeight sentences := by
  obtain ⟨nodes, hlayouts, hnodes⟩ := exists_layouts_below sentences h
  have hroot : ScriptLayout sentences (.laid "script" [("statement", nodes.map .node)]) :=
    ⟨nodes, hlayouts, Node.consists_laid _ (by simp)⟩
  have hbelow : (Node.laid "script" [("statement", nodes.map .node)]).Below _ :=
    Node.below_laid "script" (scriptHeight_pos sentences) (by simpa using hnodes)
  exact ⟨_, hroot, hbelow.wellFormed,
    le_antisymm (Nat.le_of_lt_succ hbelow.height_lt) hroot.scriptHeight_le⟩

/-! ## Texts -/

/-- The text of a tree of a script is run like the tree itself up to a height of 42, and refused
above. So a script has a text that is run like its tree if it can have a tree that low, and no text
of any of its trees is accepted if it cannot, as where five brackets stand one within the other. -/
theorem accepted_iff_low (sentences : List Sentence) :
    (∀ root, ScriptLayout sentences root → root.WellFormed → ∀ setting,
      interpretText root.toText setting =
        if root.height ≤ 42 then .ok (root.interpret setting) else .error .malformed) ∧
    ((∀ sentence ∈ sentences, Phrase.AllFit sentence.phrases) → scriptHeight sentences ≤ 42 →
      ∃ root, ScriptLayout sentences root ∧ root.WellFormed ∧
        ∀ setting, interpretText root.toText setting = .ok (root.interpret setting)) ∧
    (42 < scriptHeight sentences → ∀ root, ScriptLayout sentences root → root.WellFormed →
      ∀ setting, interpretText root.toText setting = .error .malformed) ∧
    ∀ sentence ∈ sentences, ∀ e ∈ sentence.phrases,
      7 * (e.nesting + 1) + 2 ≤ scriptHeight sentences := by
  refine ⟨fun root _ hroot => interpretText_toText hroot, fun hfit hlow => ?_,
    fun hhigh root hlayout hroot setting => ?_,
    fun sentence hsentence e he => nesting_le_scriptHeight hsentence he⟩
  · obtain ⟨root, hlayout, hroot, hheight⟩ := exists_scriptLayout_below sentences hfit
    refine ⟨root, hlayout, hroot, fun setting => ?_⟩
    rw [interpretText_toText hroot, if_pos (hheight.trans_le hlow)]
  · have hheight := hhigh.trans_le hlayout.scriptHeight_le
    rw [interpretText_toText hroot, if_neg (Nat.not_le_of_gt hheight)]

end Sentence

/-! ### Brackets around a truth value -/

/-- The truth value `true` within brackets. -/
def Phrase.bracketed : ℕ → Phrase .expression
  | 0 => (Phrase.bool true).whole
  | count + 1 => (Phrase.group (bracketed count)).whole

theorem Phrase.fits_whole {p : Phrase .primary} (h : p.Fits) : p.whole.Fits :=
  ⟨⟨⟨⟨h, trivial, Nat.zero_le _⟩, trivial, Nat.zero_le _⟩, trivial, Nat.zero_le _⟩, trivial,
    Nat.zero_le _⟩

theorem Phrase.fits_bracketed (count : ℕ) : (bracketed count).Fits := by
  induction count with
  | zero => exact fits_whole trivial
  | succ count ih => exact fits_whole ih

/-- The script `x = true` with brackets around the value. -/
def Sentence.bracketing (count : ℕ) : List Sentence :=
  [.assignment "x" (some (.bracketed count))]

theorem Sentence.fit_bracketing (count : ℕ) :
    ∀ sentence ∈ bracketing count, Phrase.AllFit sentence.phrases :=
  List.forall_mem_singleton.mpr ⟨Phrase.fits_bracketed count, trivial⟩

/-- Four brackets are accepted and five are not. -/
theorem Sentence.accepted_iff_low_bracketing :
    (∃ root, ScriptLayout (bracketing 4) root ∧ root.WellFormed ∧
      ∀ setting, interpretText root.toText setting = .ok (root.interpret setting)) ∧
    ∃ root, ScriptLayout (bracketing 5) root ∧ root.WellFormed ∧ root.height = 45 ∧
      ∀ setting, interpretText root.toText setting = .error .malformed := by
  obtain ⟨-, hlow, -⟩ := accepted_iff_low (bracketing 4)
  obtain ⟨-, -, hhigh, -⟩ := accepted_iff_low (bracketing 5)
  obtain ⟨root, hlayout, hroot, hheight⟩ :=
    exists_scriptLayout_below (bracketing 5) (fit_bracketing 5)
  exact ⟨hlow (fit_bracketing 4) (by decide), root, hlayout, hroot, hheight,
    hhigh (by decide) root hlayout hroot⟩

/-- Not every script is accepted as a text, although its tree is run. -/
theorem Sentence.not_accepted_of_layout :
    ¬ ∀ (sentences : List Sentence) (root : Node) (setting : Setting),
      ScriptLayout sentences root → root.WellFormed →
        interpretText root.toText setting = .ok (root.interpret setting) := by
  intro hall
  obtain ⟨root, hlayout, hroot, hheight⟩ :=
    exists_scriptLayout_below (bracketing 5) (fit_bracketing 5)
  have haccepted := hall (bracketing 5) root { source := .ofData [] } hlayout hroot
  rw [interpretText_toText hroot, hheight, if_neg (by decide)] at haccepted
  cases haccepted

end MetricScript
