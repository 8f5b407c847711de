import MetricScript.Interpreter
import MetricScript.Proofs.Json.RoundTrip
import MetricScript.Proofs.Tree.RoundTrip

/-! # Heights of trees, and texts that nest too deep

A tree takes three levels of JSON for each of its own, and two more at the bottom if there is a
token. JSON may be nested no deeper than a limit, which is thus a limit to the height of the trees
that can be handed over as a text. -/

namespace MetricScript

/-! ## Depth of JSON -/

namespace Json

theorem depthItems_le_iff {items : List Json} {k : ℕ} :
    depthItems items ≤ k ↔ ∀ j ∈ items, j.depth ≤ k := by
  induction items with
  | nil => simp [depthItems]
  | cons j rest ih => rw [depthItems, max_le_iff, ih, List.forall_mem_cons]

theorem depth_array_le_iff {items : List Json} {k : ℕ} :
    (array items).depth ≤ k ↔ 1 ≤ k ∧ ∀ j ∈ items, j.depth < k := by
  cases k with
  | zero => simp [depth]
  | succ k =>
      rw [depth, Nat.add_comm, Nat.add_le_add_iff_right, depthItems_le_iff]
      simp only [Nat.le_add_left, true_and, Nat.lt_succ_iff]

theorem depthFields_le_iff {fields : List (String × Json)} {k : ℕ} :
    depthFields fields ≤ k ↔ ∀ field ∈ fields, field.2.depth ≤ k := by
  induction fields with
  | nil => simp [depthFields]
  | cons field rest ih => rw [depthFields, max_le_iff, ih, List.forall_mem_cons]

theorem readableItems_iff {items : List Json} :
    readableItems items ↔ ∀ j ∈ items, j.readable := by
  induction items with
  | nil => simp [readableItems]
  | cons j rest ih => rw [readableItems, Bool.and_eq_true, ih, List.forall_mem_cons]

theorem readableFields_iff {fields : List (String × Json)} :
    readableFields fields ↔ ∀ field ∈ fields, field.2.readable := by
  induction fields with
  | nil => simp [readableFields]
  | cons field rest ih => rw [readableFields, Bool.and_eq_true, ih, List.forall_mem_cons]

theorem Exact.readable {j : Json} (h : j.Exact) : j.readable := by
  induction h with
  | null => rfl
  | bool b => rfl
  | int hn => rfl
  | string s => rfl
  | array _ ih => exact readableItems_iff.mpr ih
  | object _ ih => exact readableFields_iff.mpr ih

theorem exact_ofString? (s : Option String) : (ofString? s).Exact := by
  cases s with
  | none => exact .null
  | some s => exact .string s

theorem depth_ofString? (s : Option String) : (ofString? s).depth = 0 := by
  cases s <;> rfl

end Json

/-! ## Trees as exact JSON -/

theorem Token.exact_toJson {t : Token} (h : t.Fits) : t.toJson.Exact := by
  obtain ⟨image, offset⟩ := t
  have hoffset : (offset.elim .null fun offset => .int offset : Json).Exact := by
    cases offset with
    | none => exact .null
    | some offset =>
        have hle : offset ≤ Decimal.wordMax := h offset rfl
        exact .int ⟨by omega, by exact_mod_cast hle⟩
  exact .object (List.forall_mem_cons.mpr ⟨.string image, List.forall_mem_singleton.mpr hoffset⟩)

theorem Token.depth_toJson (t : Token) : t.toJson.depth = 1 := by
  obtain ⟨image, offset⟩ := t
  cases offset <;> rfl

namespace Node

theorem exact_toJson {n : Node} (h : n.WellFormed) : n.toJson.Exact := by
  induction n using Node.induct with
  | mk rule children ih =>
      obtain ⟨horder, helements⟩ := h
      have hchildren : (Json.object (entriesToJson children)).Exact := by
        rw [entriesToJson_eq_map]
        refine .object (List.forall_mem_map.mpr fun entry hentry => ?_)
        refine .array (List.forall_mem_map.mpr fun element helement => ?_)
        cases helements entry hentry element helement with
        | @node m hm => exact ih entry hentry m helement hm
        | @token t ht => exact t.exact_toJson ht
      rw [toJson]
      exact .object (List.forall_mem_cons.mpr
        ⟨Json.exact_ofString? rule, List.forall_mem_singleton.mpr hchildren⟩)

/-! ## Height -/

mutual

/-- How many nodes there are on the longest way down. -/
def height : Node → ℕ
  | .mk _ children => heightEntries children + 1
termination_by structural n => n

def heightEntries : List (String × List Element) → ℕ
  | [] => 0
  | (_, elements) :: rest => max (heightElements elements) (heightEntries rest)
termination_by structural entries => entries

def heightElements : List Element → ℕ
  | [] => 0
  | element :: rest => max (elementHeight element) (heightElements rest)
termination_by structural elements => elements

def elementHeight : Element → ℕ
  | .node n => n.height
  | .token _ => 0
termination_by structural element => element

end

theorem height_le_iff {rule : Option String} {children : List (String × List Element)} {k : ℕ} :
    (mk rule children).height ≤ k + 1 ↔
      ∀ entry ∈ children, ∀ m, .node m ∈ entry.2 → m.height ≤ k := by
  have helements (elements : List Element) :
      heightElements elements ≤ k ↔ ∀ m, .node m ∈ elements → m.height ≤ k := by
    induction elements with
    | nil => simp [heightElements]
    | cons element rest ih =>
        rw [heightElements, max_le_iff, ih]
        cases element with
        | node n => simp [elementHeight]
        | token t => simp [elementHeight]
  have hentries : heightEntries children ≤ k ↔
      ∀ entry ∈ children, ∀ m, .node m ∈ entry.2 → m.height ≤ k := by
    induction children with
    | nil => simp [heightEntries]
    | cons entry rest ih => rw [heightEntries, max_le_iff, ih, helements, List.forall_mem_cons]
  rw [height, Nat.add_le_add_iff_right, hentries]

theorem height_pos (n : Node) : 0 < n.height := by
  obtain ⟨rule, children⟩ := n
  exact Nat.succ_pos _

theorem depth_toJson (rule : Option String) (children : List (String × List Element)) :
    (mk rule children).toJson.depth = Json.depthFields (entriesToJson children) + 2 := by
  rw [toJson, Json.depth]
  simp only [Json.depthFields, Json.depth_ofString?, Json.depth]
  omega

/-- A list of children takes one level of its own. -/
theorem depthFields_entriesToJson_le_iff {children : List (String × List Element)} {k : ℕ} :
    Json.depthFields (entriesToJson children) ≤ k ↔
      ∀ entry ∈ children, 1 ≤ k ∧ ∀ element ∈ entry.2, (elementToJson element).depth < k := by
  simp only [entriesToJson_eq_map, Json.depthFields_le_iff, List.forall_mem_map,
    Json.depth_array_le_iff]

theorem depth_toJson_le (n : Node) : n.toJson.depth ≤ 3 * n.height + 1 := by
  induction n using Node.induct with
  | mk rule children ih =>
      have hheight := height_le_iff.mp (le_refl (mk rule children).height)
      have hdepth : Json.depthFields (entriesToJson children) ≤ 3 * heightEntries children + 2 := by
        refine depthFields_entriesToJson_le_iff.mpr fun entry hentry => ⟨by omega, ?_⟩
        intro element helement
        -- A child node is lower by one, which leaves three levels; a token takes one.
        cases element with
        | node m =>
            have hdeep := ih entry hentry m helement
            have hlow := hheight entry hentry m helement
            rw [elementToJson]
            omega
        | token t =>
            rw [elementToJson, t.depth_toJson]
            omega
      rw [depth_toJson, height]
      omega

theorem le_depth_toJson (n : Node) : 3 * n.height ≤ n.toJson.depth + 1 := by
  induction n using Node.induct with
  | mk rule children ih =>
      have hdepth := depthFields_entriesToJson_le_iff.mp
        (le_refl (Json.depthFields (entriesToJson children)))
      have hheight : (mk rule children).height ≤
          Json.depthFields (entriesToJson children) / 3 + 1 := by
        refine height_le_iff.mpr fun entry hentry m hm => ?_
        have hdeep := ih entry hentry m hm
        have hlow := (hdepth entry hentry).2 (.node m) hm
        rw [elementToJson] at hlow
        omega
      rw [depth_toJson]
      omega

/-! ## Texts -/

theorem depth_le_nestingLimit_iff (n : Node) :
    n.toJson.depth ≤ Json.nestingLimit ↔ n.height ≤ 42 := by
  have hupper := n.depth_toJson_le
  have hlower := n.le_depth_toJson
  rw [Json.nestingLimit]
  omega

theorem ofDocument?_toJson {n : Node} (h : n.WellFormed) :
    ofDocument? n.toJson = if n.height ≤ 42 then some n else none := by
  have hread := ofJson?_toJson h
  have hexact := exact_toJson h
  have hlimit := n.depth_le_nestingLimit_iff
  obtain ⟨rule, children⟩ := n
  rw [depth_toJson] at hlimit
  rw [toJson] at hread hexact
  have hvalues : Json.valuesOf "children"
      [("name", Json.ofString? rule), ("children", .object (entriesToJson children))] =
        [.object (entriesToJson children)] := rfl
  have hreadable : (Json.object (entriesToJson children)).readable :=
    Json.readableFields_iff.mp hexact.readable ("children", _) (by simp)
  have hdepth : (Json.object (entriesToJson children)).depth < Json.nestingLimit ↔
      (mk rule children).height ≤ 42 := by
    rw [← hlimit, Json.depth]
    omega
  simp only [toJson, ofDocument?, Json.record?_object, Option.bind_eq_bind, Option.bind_some,
    hvalues, hread, List.all_cons, List.all_nil, hreadable, hdepth, Bool.true_and, Bool.and_true,
    decide_eq_true_eq]

theorem ofText?_toText {n : Node} (h : n.WellFormed) :
    ofText? n.toText = if n.height ≤ 42 then some n else none := by
  rw [ofText?, toText, (exact_toJson h).parse?_toText, Option.bind_some, ofDocument?_toJson h]

end Node

/-- A tree that is handed over as a text is run like the tree itself up to a height of 42, and is
refused above. -/
theorem interpretText_toText {root : Node} (h : root.WellFormed) (setting : Setting) :
    interpretText root.toText setting =
      if root.height ≤ 42 then .ok (root.interpret setting) else .error .malformed := by
  rw [interpretText, Node.ofText?_toText h]
  split_ifs <;> rfl

end MetricScript
