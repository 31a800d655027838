import Offside.Unicode.Range

/-!
# White space

The 25 characters with the property `White_Space`.
-/

namespace Offside
namespace Unicode

/-- The characters with the property `White_Space`. -/
def whiteSpaceRanges : List Range :=
  [⟨0x9, 0xD⟩, ⟨0x20, 0x20⟩, ⟨0x85, 0x85⟩, ⟨0xA0, 0xA0⟩, ⟨0x1680, 0x1680⟩, ⟨0x2000, 0x200A⟩,
   ⟨0x2028, 0x2029⟩, ⟨0x202F, 0x202F⟩, ⟨0x205F, 0x205F⟩, ⟨0x3000, 0x3000⟩]

def isWhiteSpace (c : Char) : Bool :=
  covers whiteSpaceRanges c

end Unicode
end Offside
