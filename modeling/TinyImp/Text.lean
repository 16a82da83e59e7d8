/-! # Lines of text -/

namespace TinyImp

/-- Lines as one text, each of them ended. -/
def unlines (lines : List String) : String :=
  String.join (lines.map (· ++ "\n"))

/-- A line indented by two blanks for each level. -/
def indented (depth : Nat) (line : String) : String :=
  String.join (List.replicate depth "  ") ++ line

end TinyImp
