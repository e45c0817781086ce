/-!
# Violations

The rules that can reject a class. A violation names the element that breaks the rule.
-/

namespace Wiring

/-- A rule that a class can break. -/
inductive Rule where
  | finalClassProxy
  | finalAdvisedMethod
  | finalInheritedAdvice
  | privateAdvisedMethod
  | staticAdvisedMethod
  | staticNotExecutable
  | inaccessibleMethod
  | inaccessibleExecutable
  deriving DecidableEq

namespace Rule

/-- Every rule, in the order of its documentation. -/
def all : List Rule :=
  [.finalClassProxy, .finalAdvisedMethod, .finalInheritedAdvice, .privateAdvisedMethod,
    .staticAdvisedMethod, .staticNotExecutable, .inaccessibleMethod, .inaccessibleExecutable]

/-- The name by which a rule is known in reports. -/
def key : Rule → String
  | .finalClassProxy => "final-class-proxy"
  | .finalAdvisedMethod => "final-advised-method"
  | .finalInheritedAdvice => "final-inherited-advice"
  | .privateAdvisedMethod => "private-advised-method"
  | .staticAdvisedMethod => "static-advised-method"
  | .staticNotExecutable => "static-not-executable"
  | .inaccessibleMethod => "inaccessible-method"
  | .inaccessibleExecutable => "inaccessible-executable"

end Rule

/-- A rule and the class or method that breaks it. -/
structure Violation where
  rule : Rule
  element : String
  deriving DecidableEq

namespace Violation

/-- The wording of a violation. -/
def message (v : Violation) : String :=
  match v.rule with
  | .finalClassProxy =>
    "cannot apply AOP advice to final class " ++ v.element ++
      ": the class must be made non-final to support proxying"
  | .finalAdvisedMethod =>
    "method " ++ v.element ++
      " declares advice but is final: change the method to be non-final in order for the advice " ++
      "to be applied"
  | .finalInheritedAdvice =>
    "method " ++ v.element ++
      " inherits class-level advice but is final and declared here: make the method private or " ++
      "protected, or apply advice only to non-final methods"
  | .privateAdvisedMethod =>
    "method " ++ v.element ++
      " carries advice but is private: change the method to be non-private in order for the " ++
      "advice to be applied"
  | .staticAdvisedMethod => "method " ++ v.element ++ " carries advice but is static"
  | .staticNotExecutable =>
    "static method " ++ v.element ++ " is only allowed when explicitly marked executable"
  | .inaccessibleMethod =>
    "method " ++ v.element ++
      " is not accessible for direct invocation from the generated code; reflective access is " ++
      "not supported for static methods"
  | .inaccessibleExecutable =>
    "method " ++ v.element ++
      " is marked executable but is not accessible without reflection: make the method " ++
      "accessible or remove the executable marker"

end Violation

end Wiring
