import Mathlib.Data.List.Induction
import Mathlib.Data.List.Nodup
import EntityQuery.Plan.Basic

/-!
# Elements that are kept once

Adding elements to a list that keeps each of them where it came first. Started from the empty list,
this erases the duplicates.
-/

namespace EntityQuery

variable {α : Type} [DecidableEq α]

theorem mem_foldl_addNew {as bs : List α} {a : α} :
    a ∈ bs.foldl addNew as ↔ a ∈ as ∨ a ∈ bs := by
  induction bs generalizing as with
  | nil => simp
  | cons b bs ih =>
    rw [List.foldl_cons, ih, addNew, List.mem_cons]
    split
    · grind
    · grind

theorem nodup_foldl_addNew {as : List α} (h : as.Nodup) (bs : List α) :
    (bs.foldl addNew as).Nodup := by
  induction bs generalizing as with
  | nil => exact h
  | cons b bs ih =>
    apply ih
    unfold addNew
    split
    · exact h
    · rename_i hb
      rw [← List.concat_eq_append]
      exact h.concat hb

/-- What is new comes behind, each element where it came first. -/
theorem foldl_addNew (as bs : List α) :
    bs.foldl addNew as = as ++ (bs.removeAll as).eraseDups := by
  induction bs generalizing as with
  | nil => simp [List.removeAll]
  | cons b bs ih =>
    rw [List.foldl_cons, addNew]
    by_cases hb : b ∈ as
    · rw [if_pos hb, ih, List.cons_removeAll]
      simp [hb]
    · have hfilter : bs.removeAll (as ++ [b]) = (bs.removeAll as).filter fun c => !c == b := by
        rw [List.removeAll, List.removeAll, List.filter_filter]
        congr 1
        funext c
        by_cases hc : c = b <;> simp [hc]
      rw [if_neg hb, ih, List.cons_removeAll]
      simp [hb, List.eraseDups_cons, hfilter]

theorem eraseDups_eq_foldl_addNew (as : List α) : as.eraseDups = as.foldl addNew [] := by
  simp [foldl_addNew, List.removeAll]

theorem nodup_eraseDups (as : List α) : as.eraseDups.Nodup := by
  rw [eraseDups_eq_foldl_addNew]
  exact nodup_foldl_addNew List.nodup_nil as

theorem eraseDups_concat (as : List α) (a : α) :
    (as ++ [a]).eraseDups = addNew as.eraseDups a := by
  rw [eraseDups_eq_foldl_addNew, List.foldl_append, ← eraseDups_eq_foldl_addNew]
  rfl

/-- Where each element comes once there is nothing to erase. -/
theorem eraseDups_of_nodup {as : List α} (h : as.Nodup) : as.eraseDups = as := by
  induction as using List.reverseRecOn with
  | nil => rfl
  | append_singleton as a ih =>
    rw [← List.concat_eq_append, List.nodup_concat] at h
    rw [eraseDups_concat, ih h.2, addNew, if_neg h.1]

/-- What comes a second time can be left out beforehand. -/
theorem eraseDups_append_eraseDups (as bs : List α) :
    (as ++ bs.eraseDups).eraseDups = (as ++ bs).eraseDups := by
  induction bs using List.reverseRecOn with
  | nil => rfl
  | append_singleton bs b ih =>
    rw [eraseDups_concat, ← List.append_assoc, eraseDups_concat, ← ih, addNew]
    by_cases hb : b ∈ bs.eraseDups
    · have hmem : b ∈ (as ++ bs.eraseDups).eraseDups := by
        rw [List.mem_eraseDups]
        exact List.mem_append_right _ hb
      rw [if_pos hb, addNew, if_pos hmem]
    · rw [if_neg hb, ← List.append_assoc, eraseDups_concat]

end EntityQuery
