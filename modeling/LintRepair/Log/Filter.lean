import LintRepair.Log

/-!
# Log filters

A filter is a list of directives between commas. A directive names a level, or a topic, or a topic
and a level with an equals sign between them; without a level it means the finest one. Levels may be
written in any letter case, or as numbers from zero, which stands for no events at all, to five. Of
the directives whose topic begins the topic of an event, the one with the longest topic decides. A
directive in brackets is about spans of time, of which there are none here, and decides nothing.
-/

namespace LintRepair.Log

/-- Lets events of some topics through up to a level; no level lets none through. -/
structure Directive where
  topic : String
  level : Option Level
deriving DecidableEq, Repr

/-- Decides which events are written. -/
abbrev Filter := List Directive

/-- All levels, coarsest first. -/
def Level.all : List Level := [.error, .warn, .info, .debug, .trace]

/-- The level that a text means; the outer answer is missing if it means none, the inner one if it
means no events. -/
def Level.parse? (text : String) : Option (Option Level) :=
  let named := Level.all.find? fun level =>
    level.name.map Char.toLower == text.map Char.toLower || toString level.rank == text
  if text.map Char.toLower = "off" || text = "0" then some none
  else if text.isEmpty then some (some .error)
  else named.map some

namespace Filter

/-- Whether a directive can begin with a character. -/
def startsDirective (c : Char) : Bool :=
  c.isAlphanum || c == '-' || c == ':' || c == '_' || '\x7f' < c

/-- The directive that a text means, or nothing if it is about spans. -/
def parseDirective? (text : String) : Option (Option Directive) :=
  let chars := text.toList
  match chars.head? with
  | none => some none
  | some first =>
      if first = '[' then some none
      else if !startsDirective first then none
      else if chars.contains '[' then some none
      else
        let topic := String.ofList (chars.takeWhile (· ≠ '='))
        match chars.dropWhile (· ≠ '=') with
        | [] =>
            match Level.parse? topic with
            | some level => some (some ⟨"", level⟩)
            | none => some (some ⟨topic, some .trace⟩)
        | [_] => some (some ⟨topic, some .trace⟩)
        | _ :: level => (Level.parse? (String.ofList level)).map fun level => some ⟨topic, level⟩

/-- The texts between commas. -/
def directiveTexts (chars : List Char) : List String :=
  let pieces := chars.foldr (fun c pieces =>
    match c, pieces with
    | ',', pieces => [] :: pieces
    | c, [] => [[c]]
    | c, piece :: pieces => (c :: piece) :: pieces) [[]]
  (pieces.map String.ofList).filter fun piece => !piece.isEmpty

/-- The filter that a text means; one without directives lets only errors through. -/
def parse? (text : String) : Option Filter := do
  let directives ← (directiveTexts text.toList).mapM parseDirective?
  let found := directives.filterMap id
  return if found.isEmpty then [⟨"", some .error⟩] else found

/-- The filter that lets through all events up to a level. -/
def upTo (level : Level) : Filter := [⟨"", some level⟩]

/-- Of two directives for a topic the one that decides: that of the longer topic, and of equal
topics the later one. -/
def decisive (earlier later : Directive) : Directive :=
  if later.topic.length < earlier.topic.length then earlier else later

/-- The directive that decides about a topic. -/
def directive? (filter : Filter) (topic : String) : Option Directive :=
  match filter.filter fun directive => directive.topic.isPrefixOf topic with
  | [] => none
  | first :: rest => some (rest.foldl decisive first)

def admits (filter : Filter) (event : Event) : Bool :=
  match filter.directive? event.topic with
  | some ⟨_, some level⟩ => event.level.rank ≤ level.rank
  | _ => false

end Filter

end LintRepair.Log
