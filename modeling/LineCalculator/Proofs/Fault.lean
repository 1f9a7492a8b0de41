import LineCalculator.Proofs.TokenOrder
import LineCalculator.Proofs.ZeroDivisor

namespace LineCalculator

variable {limit : Int}

namespace Counter

variable {c c' : Counter} {d : Diagnosis}

end Counter

namespace Lexed

variable {l : Lexed} {xs : List Lexeme} {q : Nat}

end Lexed

end LineCalculator
