/- # Split -- the two sides of the last separator in a text

`splitLast separator text` cuts at the last occurrence of the separator.  `splitLast_append` says that
nothing is lost: the two sides and the separator between them are the text. -/
set_option autoImplicit false

namespace PointsTo

/-- The characters before and after the last occurrence of `separator`. -/
def splitLast (separator : List Char) : List Char → Option (List Char × List Char)
  | [] => if separator.isEmpty then some ([], []) else none
  | c :: rest =>
    match splitLast separator rest with
    | some (before, after) => some (c :: before, after)
    | none =>
      if separator.isPrefixOf (c :: rest) then some ([], (c :: rest).drop separator.length)
      else none

theorem splitLast_append {separator text before after : List Char}
    (found : splitLast separator text = some (before, after)) :
    before ++ separator ++ after = text := by
  induction text generalizing before after with
  | nil =>
    unfold splitLast at found
    split at found
    · rename_i h
      simp only [Option.some.injEq, Prod.mk.injEq] at found
      simp [← found.1, ← found.2, List.isEmpty_iff.mp h]
    · simp at found
  | cons c rest ih =>
    unfold splitLast at found
    split at found
    · rename_i left right inner
      simp only [Option.some.injEq, Prod.mk.injEq] at found
      simp [← found.1, ← found.2, ← ih inner]
    · split at found
      · rename_i starts
        simp only [Option.some.injEq, Prod.mk.injEq] at found
        obtain ⟨tail, whole⟩ := List.isPrefixOf_iff_prefix.mp starts
        simp [← found.1, ← found.2, ← whole]
      · simp at found

/-- `splitLast` on texts. -/
def splitLastText (separator text : String) : Option (String × String) :=
  (splitLast separator.toList text.toList).map fun (before, after) =>
    (String.ofList before, String.ofList after)

end PointsTo
