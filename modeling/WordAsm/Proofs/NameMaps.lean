import Mathlib.Data.List.Nodup
import WordAsm.NameMap

/-! Maps from names as sets of entries: in a map without repeated names looking up and belonging are
the same. -/

namespace WordAsm

namespace NameMap

variable {α : Type}

/-- An entry of a map without repeated names is what its name stands for. -/
theorem get?_of_mem (map : NameMap α) (h : map.names.Nodup) (entry : String × α)
    (hentry : entry ∈ map) : map.get? entry.1 = some entry.2 := by
  induction map with
  | nil => cases hentry
  | cons first rest ih =>
    rw [names, List.map_cons, List.nodup_cons] at h
    rw [get?_cons]
    rcases List.mem_cons.mp hentry with rfl | hrest
    · rw [if_pos rfl]
    · have hne : entry.1 ≠ first.1 := by
        intro heq
        exact h.1 (heq ▸ List.mem_map_of_mem hrest)
      rw [if_neg hne]
      exact ih h.2 hrest

theorem mem_of_get? (map : NameMap α) (name : String) (value : α) (h : map.get? name = some value) :
    (name, value) ∈ map := by
  induction map with
  | nil => cases h
  | cons first rest ih =>
    rw [get?_cons] at h
    split at h
    · rename_i heq
      rw [heq, ← Option.some.inj h]
      exact List.mem_cons_self
    · exact List.mem_cons_of_mem _ (ih h)

theorem mem_iff_get? (map : NameMap α) (h : map.names.Nodup) (name : String) (value : α) :
    (name, value) ∈ map ↔ map.get? name = some value := by
  constructor
  · exact get?_of_mem map h (name, value)
  · exact mem_of_get? map name value

/-- Maps that hold the same entries look the same up. -/
theorem get?_eq_of_perm {map map' : NameMap α} (hmap : map.names.Nodup) (h : map.Perm map')
    (name : String) : map.get? name = map'.get? name := by
  have hmap' : map'.names.Nodup := (h.map Prod.fst).nodup_iff.mp hmap
  apply Option.ext
  intro value
  rw [← mem_iff_get? map hmap, ← mem_iff_get? map' hmap', h.mem_iff]

/-- A name of a map stands for something. -/
theorem exists_of_mem_names (map : NameMap α) (name : String) (h : name ∈ map.names) :
    ∃ value, map.get? name = some value := by
  induction map with
  | nil => cases h
  | cons first rest ih =>
    rw [get?_cons]
    by_cases hfirst : name = first.1
    · exact ⟨first.2, if_pos hfirst⟩
    · rw [if_neg hfirst]
      exact ih ((List.mem_cons.mp h).resolve_left hfirst)

theorem get?_map {β : Type} (f : α → β) (map : NameMap α) (name : String) :
    get? (map.map fun entry => (entry.1, f entry.2)) name = (map.get? name).map f := by
  induction map with
  | nil => rfl
  | cons first rest ih =>
    rw [List.map_cons, get?_cons, get?_cons, ih]
    split <;> rfl

end NameMap

end WordAsm
