import MetricScript.Proofs.Tree.Sorted
import MetricScript.Tree.Json

/-! # Trees as JSON and back

A tree that is written can be read again, each child as what it was. What is read is a tree that can
be written. -/

namespace MetricScript

/-! ## Trees that can be written -/

/-- A token whose offset fits a 64-bit word, if it has one. -/
def Token.Fits (t : Token) : Prop :=
  ∀ offset ∈ t.offset, offset ≤ Decimal.wordMax

mutual

/-- A tree with children in ascending order of name, no name twice, and with offsets that fit a
64-bit word, all the way down. -/
inductive Node.WellFormed : Node → Prop where
  | mk {rule : Option String} {children : List (String × List Element)}
      (horder : NameMap.Ascending children)
      (helements : ∀ entry ∈ children, ∀ element ∈ entry.2, Element.WellFormed element) :
      Node.WellFormed (.mk rule children)

inductive Element.WellFormed : Element → Prop where
  | node {n : Node} (h : Node.WellFormed n) : Element.WellFormed (.node n)
  | token {t : Token} (h : t.Fits) : Element.WellFormed (.token t)

end

/-- Induction on trees, with the hypothesis for every node among the children of a node. -/
@[elab_as_elim]
theorem Node.induct {motive : Node → Prop}
    (mk : ∀ rule children, (∀ entry ∈ children, ∀ m, Element.node m ∈ entry.2 → motive m) →
      motive (.mk rule children)) (n : Node) : motive n :=
  @Node.rec motive (fun element => ∀ m, .node m = element → motive m)
    (fun children => ∀ entry ∈ children, ∀ m, .node m ∈ entry.2 → motive m)
    (fun entry => ∀ m, .node m ∈ entry.2 → motive m)
    (fun elements => ∀ m, .node m ∈ elements → motive m) mk
    (fun _ hn _ h => Element.node.inj h ▸ hn)
    (fun _ _ h => nomatch h)
    (fun _ h => absurd h List.not_mem_nil)
    (fun _ _ hhead htail => List.forall_mem_cons.mpr ⟨hhead, htail⟩)
    (fun _ _ h => h)
    (fun _ h => absurd h List.not_mem_nil)
    (fun _ _ hhead htail m h => (List.mem_cons.mp h).elim (hhead m) (htail m)) n

/-! ## Lists of children -/

namespace Node

theorem elementsToJson_eq_map (elements : List Element) :
    elementsToJson elements = elements.map elementToJson := by
  induction elements with
  | nil => rfl
  | cons element rest ih => rw [elementsToJson, ih, List.map_cons]

theorem entriesToJson_eq_map (children : List (String × List Element)) :
    entriesToJson children =
      children.map fun entry => (entry.1, .array (entry.2.map elementToJson)) := by
  induction children with
  | nil => rfl
  | cons entry rest ih => rw [entriesToJson, ih, elementsToJson_eq_map, List.map_cons]

theorem elements?_cons (item : Json) (items : List Json) :
    elements? (item :: items) =
      (Element.ofJson? item).bind fun element => (elements? items).bind fun rest =>
        some (element :: rest) := by
  rw [elements?, Element.ofJson?]
  cases ofJson? item <;> rfl

theorem elements?_elementsToJson {elements : List Element}
    (h : ∀ element ∈ elements, Element.ofJson? (elementToJson element) = some element) :
    elements? (elementsToJson elements) = some elements := by
  induction elements with
  | nil => rfl
  | cons element rest ih =>
      obtain ⟨helement, hrest⟩ := List.forall_mem_cons.mp h
      rw [elementsToJson, elements?_cons, helement, ih hrest]
      rfl

theorem entries?_entriesToJson {children : List (String × List Element)}
    (h : ∀ entry ∈ children, ∀ element ∈ entry.2,
      Element.ofJson? (elementToJson element) = some element) :
    entries? (entriesToJson children) = some children := by
  induction children with
  | nil => rfl
  | cons entry rest ih =>
      obtain ⟨key, elements⟩ := entry
      obtain ⟨hentry, hrest⟩ := List.forall_mem_cons.mp h
      have helements : list? (.array (elementsToJson elements)) = some elements :=
        elements?_elementsToJson hentry
      rw [entriesToJson, entries?, helements, ih hrest]
      rfl

end Node

/-! ## What is written can be read -/

theorem Json.orNull?_ofString? (s : Option String) :
    Json.orNull? Json.string? (Json.ofString? s) = some s := by
  cases s <;> rfl

/-- A token has no children, so it is not taken for a node. -/
theorem Node.ofJson?_token (t : Token) : Node.ofJson? t.toJson = none := rfl

theorem Token.ofJson?_toJson {t : Token} (h : t.Fits) : Token.ofJson? t.toJson = some t := by
  obtain ⟨image, offset⟩ := t
  cases offset with
  | none => rfl
  | some offset =>
      have hoffset : Json.word? (.int offset) = some offset := by
        have hle : offset ≤ Decimal.wordMax := h offset rfl
        simp [Json.word?, hle]
      change ((Json.word? (.int offset)).map some).bind (fun o => some (Token.mk image o)) = _
      rw [hoffset]
      rfl

/-- A node is read as a node, and by nothing else. -/
theorem Node.ofJson?_mk {rule : Option String} {children : List (String × List Element)}
    (horder : NameMap.Ascending children)
    (h : ∀ entry ∈ children, ∀ element ∈ entry.2,
      Element.ofJson? (elementToJson element) = some element) :
    ofJson? (Node.mk rule children).toJson = some (.mk rule children) := by
  have hname : Json.defaulted? "name" none (Json.orNull? Json.string?)
      [("name", Json.ofString? rule), ("children", .object (entriesToJson children))] =
        some rule := Json.orNull?_ofString? rule
  have hchildren : childrenFields
      [("name", Json.ofString? rule), ("children", .object (entriesToJson children))] =
        [some children] := by
    rw [← entries?_entriesToJson h]
    rfl
  rw [toJson, ofJson?, hname, hchildren]
  exact congrArg some (congrArg _ (NameMap.sortEntries_of_ascending horder))

theorem Node.ofJson?_toJson {n : Node} (h : n.WellFormed) : ofJson? n.toJson = some n := by
  induction n using Node.induct with
  | mk rule children ih =>
      obtain ⟨horder, helements⟩ := h
      refine ofJson?_mk horder fun entry hentry element helement => ?_
      rw [elementToJson.eq_def, Element.ofJson?]
      cases helements entry hentry element helement with
      | @node m hm =>
          simp only [ih entry hentry m helement hm]
      | @token t ht =>
          simp only [Node.ofJson?_token, Token.ofJson?_toJson ht, Option.map_some]

theorem Element.ofJson?_toJson {element : Element} (h : element.WellFormed) :
    ofJson? (Node.elementToJson element) = some element := by
  cases h with
  | node h =>
      rw [Node.elementToJson, Element.ofJson?, Node.ofJson?_toJson h]
  | @token t h =>
      rw [Node.elementToJson, Element.ofJson?, Node.ofJson?_token t]
      simp only [Token.ofJson?_toJson h, Option.map_some]

/-! ## What is read can be written -/

theorem Token.fits_of_ofJson? {j : Json} {t : Token} (h : Token.ofJson? j = some t) : t.Fits := by
  obtain ⟨fields, -, h⟩ := Option.bind_eq_some_iff.mp h
  obtain ⟨image, -, h⟩ := Option.bind_eq_some_iff.mp h
  obtain ⟨offset, hoffset, h⟩ := Option.bind_eq_some_iff.mp h
  cases h
  rintro n rfl
  unfold Json.defaulted? at hoffset
  split at hoffset
  · cases hoffset
  · rename_i value _
    cases value with
    | int m =>
        obtain ⟨k, hk, hn⟩ := Option.map_eq_some_iff.mp hoffset
        obtain ⟨⟨-, hle⟩, hvalue⟩ := Option.ite_none_right_eq_some.mp hk
        cases hn
        exact Option.some.inj hvalue ▸ hle
    | _ => cases hoffset
  · cases hoffset

namespace Node

theorem mem_of_mem_childrenFields {fields : List (String × Json)}
    {result : Option (List (String × List Element))} (h : result ∈ childrenFields fields) :
    ∃ value, ("children", value) ∈ fields ∧ children? value = result := by
  induction fields with
  | nil => cases h
  | cons field rest ih =>
      obtain ⟨key, value⟩ := field
      have hlater (hrest : result ∈ childrenFields rest) :
          ∃ value', ("children", value') ∈ (key, value) :: rest ∧ children? value' = result := by
        obtain ⟨value', hmem, hvalue⟩ := ih hrest
        exact ⟨value', List.mem_cons_of_mem _ hmem, hvalue⟩
      rw [childrenFields] at h
      split at h
      · next hkey =>
          rcases List.mem_cons.mp h with rfl | h
          · exact ⟨value, hkey ▸ List.mem_cons_self, rfl⟩
          · exact hlater h
      · exact hlater h

theorem exists_of_children? {j : Json} {children : List (String × List Element)}
    (h : children? j = some children) :
    ∃ entries, j = .object entries ∧ entries? entries = some children := by
  cases j with
  | object entries => exact ⟨entries, rfl, h⟩
  | _ => cases h

/-- A node comes from a record with an object of children, which are put in order. -/
theorem exists_of_ofJson? {j : Json} {n : Node} (h : ofJson? j = some n) :
    ∃ entries rule children, sizeOf (Json.object entries) < sizeOf j ∧
      entries? entries = some children ∧ n = .mk rule (NameMap.sortEntries children) := by
  unfold ofJson? at h
  split at h
  next fields =>
      obtain ⟨rule, -, h⟩ := Option.bind_eq_some_iff.mp h
      split at h
      · next children hfields =>
          cases h
          have hmem : some children ∈ childrenFields fields := hfields ▸ List.mem_cons_self
          obtain ⟨value, hvalue, hread⟩ := mem_of_mem_childrenFields hmem
          obtain ⟨entries, rfl, hentries⟩ := exists_of_children? hread
          have hsize := List.sizeOf_lt_of_mem hvalue
          simp only [Prod.mk.sizeOf_spec] at hsize
          exact ⟨entries, rule, children, by rw [Json.object.sizeOf_spec fields]; omega, hentries,
            rfl⟩
      · cases h
  next name value =>
      obtain ⟨rule, -, h⟩ := Option.bind_eq_some_iff.mp h
      obtain ⟨children, hread, h⟩ := Option.bind_eq_some_iff.mp h
      cases h
      obtain ⟨entries, rfl, hentries⟩ := exists_of_children? hread
      exact ⟨entries, rule, children, by simp; omega, hentries, rfl⟩
  next => cases h

theorem exists_of_mem_entries? {entries : List (String × Json)}
    {children : List (String × List Element)} (h : entries? entries = some children) :
    ∀ entry ∈ children, ∃ items, (entry.1, .array items) ∈ entries ∧
      elements? items = some entry.2 := by
  induction entries generalizing children with
  | nil =>
      cases h
      exact fun _ h => absurd h List.not_mem_nil
  | cons field rest ih =>
      obtain ⟨key, value⟩ := field
      obtain ⟨elements, helements, h⟩ := Option.bind_eq_some_iff.mp h
      obtain ⟨later, hlater, h⟩ := Option.bind_eq_some_iff.mp h
      cases h
      refine List.forall_mem_cons.mpr ⟨?_, fun entry hentry => ?_⟩
      · cases value with
        | array items => exact ⟨items, List.mem_cons_self, helements⟩
        | _ => cases helements
      · obtain ⟨items, hmem, hitems⟩ := ih hlater entry hentry
        exact ⟨items, List.mem_cons_of_mem _ hmem, hitems⟩

theorem exists_of_mem_elements? {items : List Json} {elements : List Element}
    (h : elements? items = some elements) :
    ∀ element ∈ elements, ∃ item ∈ items, Element.ofJson? item = some element := by
  induction items generalizing elements with
  | nil =>
      cases h
      exact fun _ h => absurd h List.not_mem_nil
  | cons item rest ih =>
      rw [elements?_cons] at h
      obtain ⟨first, hfirst, h⟩ := Option.bind_eq_some_iff.mp h
      obtain ⟨later, hlater, h⟩ := Option.bind_eq_some_iff.mp h
      cases h
      refine List.forall_mem_cons.mpr ⟨⟨item, List.mem_cons_self, hfirst⟩, fun element h => ?_⟩
      obtain ⟨item', hmem, hitem'⟩ := ih hlater element h
      exact ⟨item', List.mem_cons_of_mem _ hmem, hitem'⟩

end Node

theorem Json.sizeOf_lt_of_mem {items : List Json} {entries : List (String × Json)} {item : Json}
    {key : String} (hitem : item ∈ items) (hentry : (key, .array items) ∈ entries) :
    sizeOf item < sizeOf (Json.object entries) := by
  have h₁ := List.sizeOf_lt_of_mem hitem
  have h₂ := List.sizeOf_lt_of_mem hentry
  simp only [Prod.mk.sizeOf_spec, Json.array.sizeOf_spec, Json.object.sizeOf_spec] at h₂ ⊢
  omega

/-- What is read as a node is a tree that can be written. -/
theorem Node.wellFormed_of_ofJson? {j : Json} {n : Node} (h : ofJson? j = some n) :
    n.WellFormed := by
  obtain ⟨entries, rule, children, hsize, hentries, rfl⟩ := exists_of_ofJson? h
  refine .mk (NameMap.ascending_sortEntries children) fun entry hentry element helement => ?_
  obtain ⟨items, hitems, hread⟩ :=
    exists_of_mem_entries? hentries entry (NameMap.mem_of_mem_sortEntries hentry)
  obtain ⟨item, hitem, hchild⟩ := exists_of_mem_elements? hread element helement
  unfold Element.ofJson? at hchild
  split at hchild
  · next m hm =>
      cases hchild
      exact .node (wellFormed_of_ofJson? hm)
  · obtain ⟨t, ht, rfl⟩ := Option.map_eq_some_iff.mp hchild
    exact .token (Token.fits_of_ofJson? ht)
termination_by sizeOf j
decreasing_by exact Nat.lt_trans (Json.sizeOf_lt_of_mem hitem hitems) hsize

/-! ## There and back -/

/-- A tree that is written as JSON is read back as it was, every child as the node or token that it
was. So whatever JSON a tree was read from, writing the tree and reading it again gives the same
tree. -/
theorem Node.json_round_trip :
    (∀ n : Node, n.WellFormed → ofJson? n.toJson = some n) ∧
    (∀ element : Element, element.WellFormed →
      Element.ofJson? (elementToJson element) = some element) ∧
    ∀ (j : Json) (n : Node), ofJson? j = some n →
      n.WellFormed ∧ ofJson? n.toJson = some n := by
  refine ⟨fun n h => ofJson?_toJson h, fun element h => Element.ofJson?_toJson h, fun j n h => ?_⟩
  have hn := wellFormed_of_ofJson? h
  exact ⟨hn, ofJson?_toJson hn⟩

/-- A tree as JSON, with children out of order, one of which looks like a node but is none. -/
def Json.misleading : Json :=
  .object [("children", .object
    [("b", .array [.object [("children", .object []), ("image", .string "y")]]),
      ("a", .array [.object [("image", .string "x"), ("children", .object
        [("b", .array [.int 7])])]])])]

/-- What is read from it: a token and a node. -/
def Node.misleading : Node :=
  .mk none [("a", [.token ⟨"x", none⟩]), ("b", [.node (.mk none [])])]

theorem Node.json_round_trip_misleading :
    ofJson? .misleading = some .misleading ∧ misleading.WellFormed ∧
    ofJson? misleading.toJson = some misleading ∧
    Element.ofJson? (elementToJson (.node misleading)) = some (.node misleading) := by
  obtain ⟨htree, helement, hread⟩ := json_round_trip
  have hmisleading : ofJson? .misleading = some misleading := rfl
  have hn := (hread _ _ hmisleading).1
  exact ⟨hmisleading, hn, htree _ hn, helement _ (.node hn)⟩

end MetricScript
