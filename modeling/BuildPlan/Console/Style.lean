/-!
# Styled text

Text for a terminal, between the control sequences that switch a style on and off.
-/

namespace BuildPlan.Console

def control (code : Nat) : String :=
  "\x1b[" ++ Nat.repr code ++ "m"

def boldIn (colour : Nat) (text : String) : String :=
  control 1 ++ control colour ++ text ++ control 39 ++ control 0

def redBold (text : String) : String :=
  boldIn 31 text

def greenBold (text : String) : String :=
  boldIn 32 text

def dimmed (text : String) : String :=
  control 2 ++ text ++ control 0

end BuildPlan.Console
