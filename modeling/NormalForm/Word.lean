/-!
Machine words: counts and indices are unsigned numbers below `Word.size`. A table may take up at most
half of the addresses.
-/

set_option autoImplicit false

namespace NormalForm

def Word.size : Nat := Nat.pow 2 64

def Word.fits (n : Nat) : Bool := n < Word.size

-- Whether a table of so many entries of a size in bytes can be addressed.
def Word.addressable (entries bytes : Nat) : Bool := entries * bytes < Nat.pow 2 63

end NormalForm
