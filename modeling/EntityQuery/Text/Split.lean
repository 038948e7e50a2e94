/-!
# Splitting and joining

A text is split at each occurrence of a separator, and its pieces are joined with the separator
between them.
-/

namespace EntityQuery.Text

/-- The pieces of a text between separators. There is always one more than there are separators. -/
def split (separator : Char) : List Char → List (List Char)
  | [] => [[]]
  | c :: cs =>
    if c = separator then [] :: split separator cs
    else match split separator cs with
      | [] => [[c]]
      | piece :: pieces => (c :: piece) :: pieces

def join (separator : Char) : List (List Char) → List Char
  | [] => []
  | [piece] => piece
  | piece :: pieces => piece ++ separator :: join separator pieces

theorem split_ne_nil (separator : Char) (cs : List Char) : split separator cs ≠ [] := by
  cases cs with
  | nil => simp [split]
  | cons c cs =>
    unfold split
    split
    · simp
    · split <;> simp

theorem join_split (separator : Char) (cs : List Char) :
    join separator (split separator cs) = cs := by
  induction cs with
  | nil => rfl
  | cons c cs ih =>
    unfold split
    split
    · rename_i h
      subst h
      match hs : split c cs with
      | [] => exact absurd hs (split_ne_nil c cs)
      | piece :: pieces => rw [hs] at ih; simp [join, ih]
    · match hs : split separator cs with
      | [] => exact absurd hs (split_ne_nil separator cs)
      | [piece] => rw [hs] at ih; simp_all [join]
      | piece :: next :: pieces => rw [hs] at ih; simp_all [join]

end EntityQuery.Text
