/-!
# Cutting texts

`byteLength` measures a text in UTF-8, where a message counts an offset; `splitOnce` cuts a text at
the first occurrence of a mark.
-/

namespace Simplex.Text

/-- Length in UTF-8. -/
def byteLength : List Char → Nat
  | [] => 0
  | c :: rest => c.utf8Size + byteLength rest

@[simp] theorem byteLength_append (a b : List Char) :
    byteLength (a ++ b) = byteLength a + byteLength b := by
  induction a with
  | nil => simp [byteLength]
  | cons c rest ih => simp [byteLength, ih, Nat.add_assoc]

/-- The texts in front of and behind the first occurrence of `mark`, which is not empty. -/
def splitOnce (mark : List Char) : List Char → Option (List Char × List Char)
  | [] => none
  | c :: rest =>
    if mark.isPrefixOf (c :: rest) then some ([], (c :: rest).drop mark.length)
    else (splitOnce mark rest).map fun (front, back) => (c :: front, back)

theorem eq_of_splitOnce {mark text front back : List Char}
    (h : splitOnce mark text = some (front, back)) : text = front ++ mark ++ back := by
  induction text generalizing front with
  | nil => simp [splitOnce] at h
  | cons c rest ih =>
    rw [splitOnce] at h
    split at h
    · rename_i hm
      obtain ⟨tail, ht⟩ := List.isPrefixOf_iff_prefix.mp hm
      simp only [Option.some.injEq, Prod.mk.injEq] at h
      obtain ⟨rfl, rfl⟩ := h
      simp [← ht]
    · obtain ⟨⟨f, b⟩, hs, he⟩ := Option.map_eq_some_iff.mp h
      simp only [Prod.mk.injEq] at he
      obtain ⟨rfl, rfl⟩ := he
      simp [ih hs]

end Simplex.Text
