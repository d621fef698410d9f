/-! Finite maps from names, kept as lists of entries. A name that is put again keeps its place and
takes the new value, so a map holds one entry for each name, in the order of their first use. -/

namespace WordAsm

abbrev NameMap (α : Type) := List (String × α)

namespace NameMap

variable {α : Type}

def get? (map : NameMap α) (name : String) : Option α :=
  map.lookup name

def put (name : String) (value : α) : NameMap α → NameMap α
  | [] => [(name, value)]
  | entry :: rest => if entry.1 = name then (name, value) :: rest else entry :: put name value rest

def names (map : NameMap α) : List String :=
  map.map Prod.fst

@[simp, grind =]
theorem get?_cons (entry : String × α) (map : NameMap α) (other : String) :
    get? (entry :: map) other = if other = entry.1 then some entry.2 else map.get? other := by
  rw [get?, List.lookup_cons]
  by_cases h : other = entry.1
  · rw [if_pos h, beq_iff_eq.2 h]
  · rw [if_neg h, beq_false_of_ne h]
    rfl

@[simp, grind =]
theorem get?_put (map : NameMap α) (name other : String) (value : α) :
    get? (put name value map) other = if other = name then some value else map.get? other := by
  induction map with
  | nil => exact get?_cons (name, value) [] other
  | cons entry rest ih =>
    by_cases hk : entry.1 = name
    · rw [put, if_pos hk, get?_cons, get?_cons, hk]
      by_cases h : other = name
      · rw [if_pos h, if_pos h]
      · rw [if_neg h, if_neg h, if_neg h]
    · rw [put, if_neg hk, get?_cons, get?_cons, ih]
      by_cases h : other = entry.1
      · rw [if_pos h, if_pos h, if_neg (h ▸ hk)]
      · rw [if_neg h, if_neg h]

theorem mem_put (map : NameMap α) (name : String) (value : α) (entry : String × α)
    (h : entry ∈ put name value map) : entry = (name, value) ∨ entry ∈ map := by
  induction map with
  | nil => exact .inl (List.mem_singleton.mp h)
  | cons first rest ih =>
    by_cases hfirst : first.1 = name
    · rw [put, if_pos hfirst] at h
      rcases List.mem_cons.mp h with h | h
      · exact .inl h
      · exact .inr (List.mem_cons_of_mem _ h)
    · rw [put, if_neg hfirst] at h
      rcases List.mem_cons.mp h with h | h
      · exact .inr (h ▸ List.mem_cons_self)
      · exact (ih h).imp_right (List.mem_cons_of_mem _)

/-- A name that is put is added at most once. -/
theorem names_put_nodup (map : NameMap α) (name : String) (value : α) (h : map.names.Nodup) :
    (names (put name value map)).Nodup := by
  induction map with
  | nil => exact List.pairwise_singleton _ name
  | cons first rest ih =>
    rw [names, List.map_cons, List.nodup_cons] at h
    by_cases hfirst : first.1 = name
    · rw [put, if_pos hfirst, names, List.map_cons, List.nodup_cons]
      exact ⟨hfirst ▸ h.1, h.2⟩
    · rw [put, if_neg hfirst, names, List.map_cons, List.nodup_cons]
      refine ⟨?_, ih h.2⟩
      intro hmem
      obtain ⟨entry, hentry, heq⟩ := List.mem_map.mp hmem
      rcases mem_put rest name value entry hentry with rfl | hrest
      · exact hfirst heq.symm
      · exact h.1 (heq ▸ List.mem_map_of_mem hrest)

end NameMap

end WordAsm
