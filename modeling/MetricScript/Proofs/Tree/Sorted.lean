import Mathlib.Data.List.Induction
import MetricScript.NameMap

/-! # Entries in order of name

Sorting gives each name one entry, in ascending order, and changes nothing where that is so
already. -/

namespace MetricScript.NameMap

variable {α : Type}

/-- Entries in ascending order of name, no name twice. -/
def Ascending (entries : List (String × α)) : Prop :=
  entries.Pairwise fun entry other => entry.1 < other.1

/-! ## Putting in one entry -/

theorem Ascending.insertEntry {entries : List (String × α)} (h : Ascending entries)
    (name : String) (value : α) : Ascending (insertEntry name value entries) := by
  induction entries with
  | nil => exact List.pairwise_singleton _ _
  | cons first rest ih =>
      obtain ⟨key, old⟩ := first
      obtain ⟨hfirst, hrest⟩ := List.pairwise_cons.mp h
      unfold NameMap.insertEntry
      split
      · next hlt =>
          refine List.pairwise_cons.mpr ⟨fun entry hentry => ?_, h⟩
          rcases List.mem_cons.mp hentry with rfl | hentry
          · exact hlt
          · exact String.lt_trans hlt (hfirst entry hentry)
      · next hge =>
          split
          · next heq => exact List.pairwise_cons.mpr ⟨fun entry h => heq ▸ hfirst entry h, hrest⟩
          · next hne =>
              have hgt : key < name := by
                by_contra hge'
                exact hne (String.le_antisymm (String.not_lt.mp hge') (String.not_lt.mp hge))
              refine List.pairwise_cons.mpr ⟨fun entry hentry => ?_, ih hrest⟩
              rcases mem_insertEntry hentry with rfl | hentry
              · exact hgt
              · exact hfirst entry hentry

/-- A name behind all others is put in at the end. -/
theorem insertEntry_of_lt {name : String} {entries : List (String × α)}
    (h : ∀ entry ∈ entries, entry.1 < name) (value : α) :
    insertEntry name value entries = entries ++ [(name, value)] := by
  induction entries with
  | nil => rfl
  | cons first rest ih =>
      obtain ⟨key, old⟩ := first
      have hkey : key < name := h _ List.mem_cons_self
      have hne : name ≠ key := fun heq => String.lt_irrefl key (heq ▸ hkey)
      rw [insertEntry, if_neg (String.lt_asymm hkey), if_neg hne,
        ih fun entry hentry => h entry (List.mem_cons_of_mem _ hentry), List.cons_append]

/-! ## Sorting -/

theorem sortEntries_append_singleton (entries : List (String × α)) (entry : String × α) :
    sortEntries (entries ++ [entry]) = insertEntry entry.1 entry.2 (sortEntries entries) :=
  List.foldl_append

theorem ascending_sortEntries (entries : List (String × α)) :
    Ascending (sortEntries entries) := by
  induction entries using List.reverseRecOn with
  | nil => exact List.Pairwise.nil
  | append_singleton entries entry ih =>
      rw [sortEntries_append_singleton]
      exact ih.insertEntry entry.1 entry.2

/-- Entries in order are left as they are. -/
theorem sortEntries_of_ascending {entries : List (String × α)} (h : Ascending entries) :
    sortEntries entries = entries := by
  induction entries using List.reverseRecOn with
  | nil => rfl
  | append_singleton entries entry ih =>
      obtain ⟨hentries, -, hlt⟩ := List.pairwise_append.mp h
      rw [sortEntries_append_singleton, ih hentries]
      exact insertEntry_of_lt (fun other hother => hlt other hother entry List.mem_cons_self) _

theorem mem_of_mem_sortEntries {entries : List (String × α)} {entry : String × α}
    (h : entry ∈ sortEntries entries) : entry ∈ entries := by
  induction entries using List.reverseRecOn with
  | nil => exact h
  | append_singleton entries last ih =>
      rw [sortEntries_append_singleton] at h
      rcases mem_insertEntry h with rfl | h
      · exact List.mem_append_right _ List.mem_cons_self
      · exact List.mem_append_left _ (ih h)

/-- Where no name stands twice, sorting does not change what is found under a name. -/
theorem lookup_sortEntries {entries : List (String × α)} (h : (entries.map Prod.fst).Nodup)
    (name : String) : (sortEntries entries).lookup name = entries.lookup name := by
  induction entries using List.reverseRecOn with
  | nil => rfl
  | append_singleton entries last ih =>
      rw [List.map_append, List.nodup_append] at h
      obtain ⟨hentries, -, hdiffer⟩ := h
      rw [sortEntries_append_singleton, List.lookup_append]
      by_cases hname : name = last.1
      · have hnone : entries.lookup name = none := by
          refine List.lookup_eq_none_iff.mpr fun entry hentry => ?_
          have hne : entry.1 ≠ last.1 :=
            hdiffer _ (List.mem_map_of_mem hentry) _ (List.mem_singleton.mpr rfl)
          simpa [hname] using hne.symm
        rw [hname, lookup_insertEntry_self, ← hname, hnone, Option.none_or, hname]
        exact List.lookup_cons_self.symm
      · have hnone : [last].lookup name = none := by simp [hname]
        rw [lookup_insertEntry_of_ne hname, ih hentries, hnone, Option.or_none]

end MetricScript.NameMap
