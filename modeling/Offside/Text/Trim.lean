/-!
# Trimming

Dropping characters from the end of a text.
-/

namespace Offside
namespace Text

/-- What is left without the longest end that satisfies `p`. -/
def dropEndWhile (p : Char → Bool) (cs : List Char) : List Char :=
  (cs.reverse.dropWhile p).reverse

@[simp] theorem dropEndWhile_nil (p : Char → Bool) : dropEndWhile p [] = [] := rfl

theorem dropEndWhile_isPrefix (p : Char → Bool) (cs : List Char) :
    dropEndWhile p cs <+: cs := by
  simpa [dropEndWhile] using List.reverse_prefix.mpr (List.dropWhile_suffix (l := cs.reverse) p)

end Text
end Offside
