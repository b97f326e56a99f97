/-!
# Blank characters, trimming and cutting

Settings and socket specs are read from text in which blanks around a value do not count. `isBlank`
is the White_Space property of Unicode: 25 characters. `trim` drops blanks at both ends, `cut?`
splits a text at the first occurrence of a separator, and `pieces` splits it at every occurrence.

Everything here works on lists of characters, so that it can be reasoned about by induction.
-/

namespace QueueWatch.Text

/-- The characters with the White_Space property. -/
def isBlank (c : Char) : Bool :=
  let n := c.toNat
  (0x09 ≤ n && n ≤ 0x0D) || n == 0x20 || n == 0x85 || n == 0xA0 || n == 0x1680 ||
    (0x2000 ≤ n && n ≤ 0x200A) || n == 0x2028 || n == 0x2029 || n == 0x202F || n == 0x205F ||
    n == 0x3000

def trimStart (s : List Char) : List Char :=
  s.dropWhile isBlank

def trimEnd (s : List Char) : List Char :=
  (s.reverse.dropWhile isBlank).reverse

def trim (s : List Char) : List Char :=
  trimEnd (trimStart s)

/-- Splits a text at the first `sep`: what stands before it and what stands after it. A text without
`sep` is its own first part and has no second one. -/
def cut? (sep : Char) : List Char → List Char × Option (List Char)
  | [] => ([], none)
  | c :: rest =>
      if c = sep then ([], some rest)
      else
        let (before, after) := cut? sep rest
        (c :: before, after)

/-- The pieces of a text between occurrences of `sep`. There is one piece more than separators, so
the empty text has one empty piece. -/
def pieces (sep : Char) : List Char → List (List Char)
  | [] => [[]]
  | c :: rest =>
      if c = sep then [] :: pieces sep rest
      else
        match pieces sep rest with
        | [] => [[c]]
        | piece :: others => (c :: piece) :: others

@[simp] theorem trimStart_nil : trimStart [] = [] := rfl

theorem trimStart_cons_of_blank {c : Char} (h : isBlank c = true) (s : List Char) :
    trimStart (c :: s) = trimStart s := by
  simp [trimStart, h]

theorem trimStart_cons_of_not_blank {c : Char} (h : isBlank c = false) (s : List Char) :
    trimStart (c :: s) = c :: s := by
  simp [trimStart, h]

/-- Cutting loses nothing but the separator. -/
theorem cut?_fst_of_none {sep : Char} {s : List Char} (h : (cut? sep s).2 = none) :
    (cut? sep s).1 = s := by
  induction s with
  | nil => rfl
  | cons c rest ih =>
      by_cases hc : c = sep
      · simp [cut?, hc] at h
      · simp only [cut?, if_neg hc] at h ⊢
        rw [ih h]

/-- Cutting at a separator gives back the text when the parts are joined. -/
theorem cut?_fst_append_of_some {sep : Char} {s after : List Char}
    (h : (cut? sep s).2 = some after) : (cut? sep s).1 ++ sep :: after = s := by
  induction s with
  | nil => cases h
  | cons c rest ih =>
      by_cases hc : c = sep
      · simp only [cut?, if_pos hc, Option.some.injEq] at h ⊢
        simp [hc, h]
      · simp only [cut?, if_neg hc] at h ⊢
        rw [List.cons_append, ih h]

end QueueWatch.Text
