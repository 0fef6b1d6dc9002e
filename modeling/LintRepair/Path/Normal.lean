import LintRepair.Path.Basic

/-!
# Lexical normal form

A path is brought into normal form without looking at any file: dots are left out, and a component
that goes up takes away the name before it. A component that goes up from the root, or from the
start of a relative path, has no name before it and stays.
-/

namespace LintRepair.Path

/-- One more component at the end of normalized ones, which come last one first. -/
def pushNormal (reversed : List Component) (component : Component) : List Component :=
  match component, reversed with
  | .here, reversed => reversed
  | .up, .name _ :: rest => rest
  | component, reversed => component :: reversed

/-- The path in normal form. -/
def normalized (path : Path) : Path :=
  ofComponents (path.components.foldl pushNormal []).reverse

end LintRepair.Path
