import ModelPreview.TargetNames

/-!
# Order of target names

Names are inserted one after another, and a name that has been seen before changes nothing. What has
been collected at any time is therefore what was there at the start, and behind it the new names
without repetition, each at the place of its first occurrence.
-/

namespace ModelPreview.TargetNames

/-- Inserting several names puts the first occurrences of the unseen ones behind those seen. -/
theorem names_foldl_insert (t : TargetNames) (names : List String) :
    (names.foldl insert t).names =
      t.names ++ (names.filter fun name => name ∉ t.names).eraseDups := by
  induction names generalizing t with
  | nil => simp
  | cons name rest ih =>
      rw [List.foldl_cons, ih, names_insert]
      by_cases hseen : name ∈ t.names
      · rw [if_pos hseen, List.filter_cons_of_neg (by simpa using hseen)]
      · -- Where the name occurs again, it is left out as a seen one or as a repetition.
        have hlater : rest.filter (fun other => other ∉ t.names ++ [name]) =
            (rest.filter fun other => other ∉ t.names).filter fun other => !other == name := by
          rw [List.filter_filter]
          refine List.filter_congr fun other _ => Bool.eq_iff_iff.mpr ?_
          simp [and_comm]
        rw [if_neg hseen, List.filter_cons_of_pos (by simpa using hseen), List.eraseDups_cons,
          hlater, List.append_assoc, List.singleton_append]

/-- The names seen in a list are its names without repetition, in order of first occurrence. -/
theorem names_ofList (names : List String) : (ofList names).names = names.eraseDups := by
  have hunseen : names.filter (fun name => name ∉ empty.names) = names :=
    List.filter_eq_self.mpr (by simp [empty])
  rw [ofList, names_foldl_insert, hunseen]
  exact List.nil_append _

end ModelPreview.TargetNames
