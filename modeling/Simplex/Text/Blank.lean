/-!
# White space and comparison signs

`isBlank` is the Unicode property White_Space. `trim` cuts it from both ends of a text; `compact`
removes all of it and writes the signs `≤` and `≥` in ASCII.
-/

namespace Simplex.Text

/-- The code points with the property White_Space, as first and last of each run. -/
def blankRuns : List (Nat × Nat) :=
  [(0x9, 0xD), (0x20, 0x20), (0x85, 0x85), (0xA0, 0xA0), (0x1680, 0x1680), (0x2000, 0x200A),
    (0x2028, 0x2029), (0x202F, 0x202F), (0x205F, 0x205F), (0x3000, 0x3000)]

/-- There are twenty-five of them. -/
theorem count_blankRuns :
    blankRuns.foldl (fun count (first, last) => count + (last + 1 - first)) 0 = 25 := rfl

def isBlank (c : Char) : Bool :=
  blankRuns.any fun (first, last) => first ≤ c.toNat && c.toNat ≤ last

theorem isBlank_of_isWhitespace {c : Char} (h : c.isWhitespace) : isBlank c := by
  simp only [Char.isWhitespace, Bool.or_eq_true, decide_eq_true_eq] at h
  rcases h with ((rfl | rfl) | rfl) | rfl <;> rfl

def trim (text : List Char) : List Char :=
  ((text.dropWhile isBlank).reverse.dropWhile isBlank).reverse

/-- The ASCII text that stands for a character: a comparison sign in two characters, white space as
nothing, all else as it is. -/
def plain (c : Char) : List Char :=
  if c = '≤' then ['<', '='] else if c = '≥' then ['>', '='] else if isBlank c then [] else [c]

/-- `text` without white space and with its comparison signs in ASCII. -/
def compact (text : List Char) : List Char := text.flatMap plain

@[simp] theorem compact_nil : compact [] = [] := rfl

@[simp] theorem compact_append (a b : List Char) : compact (a ++ b) = compact a ++ compact b := by
  simp [compact]

end Simplex.Text
