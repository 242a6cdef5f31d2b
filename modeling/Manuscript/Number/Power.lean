/-! Powers that numbers in binary and decimal notation are made of. -/

namespace Manuscript

def twoTo (exponent : Nat) : Nat := Nat.pow 2 exponent

def tenTo (exponent : Nat) : Nat := Nat.pow 10 exponent

end Manuscript
