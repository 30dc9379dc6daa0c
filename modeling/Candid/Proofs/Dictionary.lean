import Candid.Dictionary
import Mathlib.Data.List.Induction
import Mathlib.Data.List.Nodup

/-!
# Dictionaries with distinct names

Putting entries of distinct names one after the other gives the entries themselves, and each of them
is found under its name. Of any entries, a dictionary keeps some, with no name twice.
-/

set_option autoImplicit false

namespace Candid.Dictionary

variable {α : Type}

theorem find?_eq_none {name : Text} {entries : Dictionary α} :
    find? name entries = none ↔ name ∉ entries.map (·.1) := by
  simp only [find?, Option.map_eq_none_iff, List.find?_eq_none, beq_iff_eq, List.mem_map, not_exists,
    not_and]

theorem find?_cons_of_ne {name : Text} {entry : Text × α} (other : entry.1 ≠ name)
    (entries : Dictionary α) : find? name (entry :: entries) = find? name entries := by
  simp [find?, other]

@[simp] theorem find?_cons_self (name : Text) (value : α) (entries : Dictionary α) :
    find? name ((name, value) :: entries) = some value := by
  simp [find?]

theorem mem_of_find? {name : Text} {value : α} {entries : Dictionary α}
    (found : find? name entries = some value) : (name, value) ∈ entries := by
  obtain ⟨⟨other, _⟩, inside, rfl⟩ := Option.map_eq_some_iff.mp found
  have same : other = name := by simpa using List.find?_some inside
  exact same ▸ List.mem_of_find?_eq_some inside

theorem find?_of_mem {name : Text} {value : α} {entries : Dictionary α}
    (distinct : (entries.map (·.1)).Nodup) (member : (name, value) ∈ entries) :
    find? name entries = some value := by
  induction entries with
  | nil => cases member
  | cons entry entries ih =>
      rw [List.map_cons, List.nodup_cons] at distinct
      rcases List.mem_cons.mp member with rfl | later
      · exact find?_cons_self name value entries
      · have other : entry.1 ≠ name := by
          rintro rfl
          exact distinct.1 (List.mem_map.mpr ⟨_, later, rfl⟩)
        rw [find?_cons_of_ne other]
        exact ih distinct.2 later

/-- Where the names are distinct, the order of the entries does not matter. -/
theorem find?_of_perm {name : Text} {entries others : Dictionary α} (same : entries.Perm others)
    (distinct : (entries.map (·.1)).Nodup) : find? name others = find? name entries := by
  cases found : find? name others with
  | none =>
      have absent : name ∉ entries.map (·.1) := by
        intro member
        exact find?_eq_none.mp found ((same.map _).subset member)
      exact (find?_eq_none.mpr absent).symm
  | some value => exact (find?_of_mem distinct (same.symm.subset (mem_of_find? found))).symm

theorem find?_append_of_not_mem {name : Text} {others : Dictionary α}
    (absent : name ∉ others.map (·.1)) (entries : Dictionary α) :
    find? name (entries ++ others) = find? name entries := by
  have nothing := find?_eq_none.mpr absent
  simp only [find?, List.find?_append] at nothing ⊢
  cases List.find? (fun entry => entry.1 == name) entries with
  | none => exact nothing
  | some entry => rfl

theorem find?_map {β : Type} (image : α → β) (name : Text) (entries : Dictionary α) :
    find? name (entries.map fun entry => (entry.1, image entry.2)) =
      (find? name entries).map image := by
  simp [find?, List.find?_map, Function.comp_def]

/-- Of two dictionaries that differ in one value, either the same is found, or the one value in the one
and the other value in the other. -/
theorem find?_exchange (name other : Text) (value changed : α) (front behind : Dictionary α) :
    find? name (front ++ (other, changed) :: behind) =
        find? name (front ++ (other, value) :: behind) ∨
      name = other ∧ find? name (front ++ (other, value) :: behind) = some value ∧
        find? name (front ++ (other, changed) :: behind) = some changed := by
  induction front with
  | nil =>
      by_cases same : name = other
      · subst same
        exact .inr ⟨rfl, find?_cons_self name value behind, find?_cons_self name changed behind⟩
      · refine .inl ?_
        rw [List.nil_append, List.nil_append, find?_cons_of_ne (Ne.symm same),
          find?_cons_of_ne (Ne.symm same)]
  | cons entry front ih =>
      obtain ⟨first, old⟩ := entry
      rw [List.cons_append, List.cons_append]
      by_cases here : first = name
      · subst here
        exact .inl (by rw [find?_cons_self, find?_cons_self])
      · rwa [find?_cons_of_ne here, find?_cons_of_ne here]

theorem put_of_not_mem {name : Text} {entries : Dictionary α}
    (new : name ∉ entries.map (·.1)) (value : α) :
    put name value entries = entries ++ [(name, value)] := by
  induction entries with
  | nil => rfl
  | cons entry entries ih =>
      simp only [List.map_cons, List.mem_cons, not_or] at new
      simp only [put, if_neg (Ne.symm new.1), ih new.2, List.cons_append]

theorem find?_put_self (name : Text) (value : α) (entries : Dictionary α) :
    find? name (put name value entries) = some value := by
  induction entries with
  | nil => exact find?_cons_self name value []
  | cons entry entries ih =>
      rw [put]
      split
      · exact find?_cons_self name value entries
      · rename_i other
        rw [find?_cons_of_ne other, ih]

theorem find?_put_of_ne {name other : Text} (apart : other ≠ name) (value : α)
    (entries : Dictionary α) : find? name (put other value entries) = find? name entries := by
  induction entries with
  | nil => exact find?_cons_of_ne apart []
  | cons entry entries ih =>
      rw [put]
      split
      · rename_i same
        have elsewhere : entry.1 ≠ name := same ▸ apart
        rw [find?_cons_of_ne apart, find?_cons_of_ne elsewhere]
      · by_cases here : entry.1 = name
        · obtain ⟨_, old⟩ := entry
          cases here
          rw [find?_cons_self, find?_cons_self]
        · rw [find?_cons_of_ne here, find?_cons_of_ne here, ih]

theorem foldl_put_of_nodup (dictionary : Dictionary α) {entries : List (Text × α)}
    (distinct : ((dictionary ++ entries).map (·.1)).Nodup) :
    entries.foldl (fun dictionary entry => put entry.1 entry.2 dictionary) dictionary =
      dictionary ++ entries := by
  induction entries generalizing dictionary with
  | nil => simp
  | cons entry entries ih =>
      have new : entry.1 ∉ dictionary.map (·.1) := by
        intro member
        rw [List.map_append, List.map_cons] at distinct
        exact (List.nodup_append.mp distinct).2.2 _ member _ List.mem_cons_self rfl
      rw [List.foldl_cons, put_of_not_mem new, ih _ (by simpa using distinct)]
      simp

theorem ofList_of_nodup {entries : List (Text × α)} (distinct : (entries.map (·.1)).Nodup) :
    ofList entries = entries :=
  foldl_put_of_nodup [] distinct

theorem mem_put {name : Text} {value : α} {entry : Text × α} {entries : Dictionary α}
    (member : entry ∈ put name value entries) : entry = (name, value) ∨ entry ∈ entries := by
  induction entries with
  | nil => exact .inl (List.mem_singleton.mp member)
  | cons first rest ih =>
      unfold put at member
      split at member
      · rcases List.mem_cons.mp member with here | later
        · exact .inl here
        · exact .inr (List.mem_cons_of_mem _ later)
      · rcases List.mem_cons.mp member with here | later
        · exact .inr (here ▸ List.mem_cons_self)
        · rcases ih later with new | old
          · exact .inl new
          · exact .inr (List.mem_cons_of_mem _ old)

/-- A dictionary holds nothing but what was put into it. -/
theorem mem_of_mem_ofList {entry : Text × α} {entries : List (Text × α)}
    (member : entry ∈ ofList entries) : entry ∈ entries := by
  induction entries using List.reverseRecOn with
  | nil => cases member
  | append_singleton entries last ih =>
      rw [ofList, List.foldl_append] at member
      rcases mem_put member with new | old
      · simp [new]
      · simp [ih old]

theorem names_put (name : Text) (value : α) (entries : Dictionary α) :
    (put name value entries).map (·.1) =
      if name ∈ entries.map (·.1) then entries.map (·.1) else entries.map (·.1) ++ [name] := by
  induction entries with
  | nil => simp [put]
  | cons entry entries ih =>
      by_cases same : entry.1 = name
      · simp [put, same]
      · have other : name ≠ entry.1 := Ne.symm same
        simp only [put, if_neg same, List.map_cons, ih, List.mem_cons, other, false_or]
        split <;> simp

/-- A dictionary has no name twice. -/
theorem nodup_ofList (entries : List (Text × α)) : ((ofList entries).map (·.1)).Nodup := by
  induction entries using List.reverseRecOn with
  | nil => exact List.nodup_nil
  | append_singleton entries last ih =>
      rw [ofList, List.foldl_append, List.foldl_cons, List.foldl_nil, names_put]
      split
      · exact ih
      · rename_i new
        exact List.nodup_append.mpr ⟨ih, List.nodup_singleton _, by
          rintro name old _ rest rfl
          exact new (List.mem_singleton.mp rest ▸ old)⟩

end Candid.Dictionary
