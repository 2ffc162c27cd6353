/-
  `Foundation.Dictionary`: dictionaries as partial functions.

  Looking a key up is applying the function.  Only what a dictionary holds
  matters, not the order in which it was entered.
-/
import Mathlib.Data.List.Nodup
import Mathlib.Logic.Function.Basic

set_option autoImplicit false

namespace CheckpointEngine.Foundation

variable {α β : Type} [DecidableEq α]

/-- A dictionary after `update` with these entries. -/
def updateAll (dict : α → Option β) (entries : List (α × β)) : α → Option β :=
  entries.foldl (fun dict entry => Function.update dict entry.1 (some entry.2)) dict

theorem updateAll_of_notMem {entries : List (α × β)} {dict : α → Option β} {key : α}
    (h : key ∉ entries.map Prod.fst) : updateAll dict entries key = dict key := by
  induction entries generalizing dict with
  | nil => rfl
  | cons entry rest ih =>
      rw [List.map_cons, List.mem_cons, not_or] at h
      calc updateAll dict (entry :: rest) key
          = Function.update dict entry.1 (some entry.2) key := ih h.2
        _ = dict key := Function.update_of_ne h.1 _ _

theorem updateAll_of_mem {entries : List (α × β)} {dict : α → Option β} {key : α} {value : β}
    (hkeys : (entries.map Prod.fst).Nodup) (h : (key, value) ∈ entries) :
    updateAll dict entries key = some value := by
  induction entries generalizing dict with
  | nil => cases h
  | cons entry rest ih =>
      obtain ⟨hnotin, hrest⟩ := List.nodup_cons.mp hkeys
      rcases List.mem_cons.mp h with rfl | hmem
      · calc updateAll dict ((key, value) :: rest) key
            = Function.update dict key (some value) key := updateAll_of_notMem hnotin
          _ = some value := Function.update_self ..
      · exact ih hrest hmem

/-- An entry is found under its key, if no other has that key. -/
theorem lookup_of_mem {entries : List (α × β)} {entry : α × β}
    (hkeys : (entries.map Prod.fst).Nodup) (h : entry ∈ entries) :
    entries.lookup entry.1 = some entry.2 := by
  obtain ⟨before, after, rfl⟩ := List.append_of_mem h
  rw [List.map_append, List.map_cons, List.nodup_middle, List.nodup_cons] at hkeys
  refine List.lookup_eq_some_iff.mpr ⟨before, after, rfl, fun other hother => ?_⟩
  exact bne_iff_ne.mpr fun heq =>
    hkeys.1 (List.mem_append_left _ (heq ▸ List.mem_map_of_mem hother))

end CheckpointEngine.Foundation
