import Wiring.Classify.Violation
import Wiring.Json.Printer

/-!
# Explanations

What each rule checks and how to change a class so that it passes, with the texts of the rule list
and of a single rule's page.
-/

namespace Wiring

namespace Rule

/-- The headline of a rule. -/
def title : Rule → String
  | .finalClassProxy => "Final Class Cannot Be Proxied"
  | .finalAdvisedMethod => "Final Method Declares Advice"
  | .finalInheritedAdvice => "Final Method Inherits Class Advice"
  | .privateAdvisedMethod => "Private Method Carries Advice"
  | .staticAdvisedMethod => "Static Method Carries Advice"
  | .staticNotExecutable => "Static Method Without Explicit Executable Marker"
  | .inaccessibleMethod => "Static Method Needs Reflection"
  | .inaccessibleExecutable => "Executable Method Needs Reflection"

/-- Where in classification a rule is checked. -/
def stage : Rule → String
  | .finalClassProxy => "proxy"
  | .finalAdvisedMethod => "interception"
  | .finalInheritedAdvice => "interception"
  | .privateAdvisedMethod => "interception"
  | .staticAdvisedMethod => "interception"
  | .staticNotExecutable => "validation"
  | .inaccessibleMethod => "validation"
  | .inaccessibleExecutable => "exposure"

/-- What a rule checks. -/
def description : Rule → String
  | .finalClassProxy =>
    "A proxy plan subclasses the bean it advises. A final class cannot be\n" ++
    "subclassed, so it can never receive a proxy.\n\n" ++
    "The rule fires when the class is processed in always-proxy mode (class-level\n" ++
    "around-advice) or when any of its methods needs interception. In always-proxy\n" ++
    "mode it fires before any member is visited."
  | .finalAdvisedMethod =>
    "The method carries around-advice written directly on it, but it is\n" ++
    "final. A proxy cannot override a final method, so the advice would silently\n" ++
    "never run.\n\n" ++
    "A method declared on a final class counts as final."
  | .finalInheritedAdvice =>
    "The class is proxied as a whole (class-level around-advice), which\n" ++
    "advises every public and package-private method. This method is declared on the\n" ++
    "class itself and is final, so the proxy cannot override it.\n\n" ++
    "Final methods inherited from a supertype are skipped instead of rejected. Outside\n" ++
    "always-proxy mode, a final method that only inherits advice is not intercepted."
  | .privateAdvisedMethod =>
    "Advice is applied by overriding the method in a proxy. Private methods\n" ++
    "cannot be overridden."
  | .staticAdvisedMethod =>
    "Static methods are not dispatched through the bean instance, so a proxy\n" ++
    "can never intercept them."
  | .staticNotExecutable =>
    "Static lifecycle callbacks and static adapter methods are only wired\n" ++
    "when the method itself is explicitly marked executable. A class-level executable\n" ++
    "marker does not count."
  | .inaccessibleMethod =>
    "The static method is explicitly executable, but generated code cannot\n" ++
    "call it directly. Reflective invocation is not supported for static methods."
  | .inaccessibleExecutable =>
    "The method is itself marked executable, but generated code cannot reach\n" ++
    "it without reflection. Executable methods are invoked directly, so the marker can\n" ++
    "never be honoured."

/-- How to change a class so that a rule passes. -/
def remediation : Rule → String
  | .finalClassProxy =>
    "- Make the class non-final, or\n" ++
    "- Remove the class-level around-advice stereotype and advise individual\n" ++
    "  methods of a non-final subclass instead."
  | .finalAdvisedMethod =>
    "- Make the method non-final, or\n" ++
    "- Remove the advice marker from the method."
  | .finalInheritedAdvice =>
    "- Make the method non-final, or\n" ++
    "- Make the method private or protected so class-level advice does not apply to it."
  | .privateAdvisedMethod =>
    "- Make the method non-private, or\n" ++
    "- Remove the advice marker."
  | .staticAdvisedMethod =>
    "- Make the method an instance method, or\n" ++
    "- Remove the advice marker."
  | .staticNotExecutable =>
    "- Add the executable marker to the method, or\n" ++
    "- Make the method an instance method."
  | .inaccessibleMethod =>
    "- Make the method accessible (for example, non-private), or\n" ++
    "- Make the method an instance method."
  | .inaccessibleExecutable =>
    "- Make the method accessible, or\n" ++
    "- Remove the executable marker from the method."

/-- The character that a query's character stands for: capitals are small and underscores are
hyphens. -/
def queryChar (c : Char) : Char := if c = '_' then '-' else c.toLower

/-- The rule that a query names. No key has a letter that a character beyond ASCII could stand
for. -/
def ofQuery? (query : String) : Option Rule :=
  all.find? fun r => r.key.toList == query.toList.map queryChar

/-! ## Pages -/

def ruleLine (c : Char) (n : Nat) : String := .ofList (List.replicate n c)

def page (r : Rule) : String :=
  let part (name text : String) := [name, ruleLine '-' 80, text, ""]
  let lines :=
    [ruleLine '=' 80, "RULE: " ++ r.title, ruleLine '=' 80, "", "Key:     " ++ r.key,
      "Stage:   " ++ r.stage, ""] ++
      part "DESCRIPTION" r.description ++ part "REMEDIATION GUIDANCE" r.remediation
  .join (lines.map (· ++ "\n"))

/-- A text filled up with blanks to a width. -/
def padRight (width : Nat) (s : String) : String :=
  s ++ ruleLine ' ' (width - s.length)

def listRow (key stage title : String) : String :=
  "  " ++ padRight 26 key ++ " " ++ padRight 14 stage ++ " " ++ title

def listText : String :=
  let lines :=
    ["Available rules:", "", listRow "KEY" "STAGE" "TITLE", listRow "---" "-----" "-----"] ++
      all.map (fun r => listRow r.key r.stage r.title) ++
      ["", "Use 'beanwire explain <key>' for details."]
  .join (lines.map (· ++ "\n"))

def listJson : Json :=
  .arr <| all.map fun r =>
    .obj [("key", .str r.key), ("stage", .str r.stage), ("title", .str r.title)]

end Rule

end Wiring
