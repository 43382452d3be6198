import HookLint.Stability.Construction

/-!
# Message — the wording of findings
-/

namespace HookLint.Report

open Stability

/-- Names in quotes: `'a'`, `'a' and 'b'`, `'a', 'b', and 'c'`. -/
def joinNames (names : List String) : String :=
  match names.map fun n => "'" ++ n ++ "'" with
  | [] => ""
  | [a] => a
  | [a, b] => a ++ " and " ++ b
  | quoted => ", ".intercalate quoted.dropLast ++ ", and " ++ quoted.getLastD ""

/-- The word for a defect of dependencies, with its article and what to do about it. -/
structure Defect where
  article : String
  adjective : String
  remedy : String

/-- Dependencies that the array lacks. -/
def Defect.missing : Defect := ⟨"a", "missing", "include"⟩

/-- Elements that the callback does not need. -/
def Defect.unnecessary : Defect := ⟨"an", "unnecessary", "exclude"⟩

/-- Elements that the array holds already. -/
def Defect.duplicate : Defect := ⟨"a", "duplicate", "omit"⟩

/-- The message for a defect of one or several dependencies. -/
def dependencyMessage (d : Defect) (hook : String) (names : List String) : String :=
  let (what, it) :=
    if names.length = 1 then (d.article ++ " " ++ d.adjective ++ " dependency", "it")
    else (d.adjective ++ " dependencies", "them")
  "React Hook " ++ hook ++ " has " ++ what ++ ": " ++ joinNames names ++ ". Either " ++ d.remedy ++
    " " ++ it ++ " or remove the dependency array."

/-- The message for a construction `name` in the array of a hook at line `line`. -/
def unstableMessage (hook name : String) (construction : Construction) (usedOutside : Bool)
    (line : Nat) : String :=
  let (wrapper, noun) :=
    if construction = .function then ("useCallback", "definition")
    else ("useMemo", "initialization")
  let wrap := "wrap the " ++ noun ++ " of '" ++ name ++ "' in its own " ++ wrapper ++ "() Hook."
  let advice :=
    if usedOutside then "To fix this, " ++ wrap
    else "Move it inside the " ++ hook ++ " callback. Alternatively, " ++ wrap
  let causation := if construction.isMaybe then "could make" else "makes"
  "The '" ++ name ++ "' " ++ construction.noun ++ " " ++ causation ++ " the dependencies of " ++
    hook ++ " Hook (at line " ++ toString line ++ ") change on every render. " ++ advice

/-- The message for a dependency list that is no array literal. -/
def notArrayMessage (hook : String) : String :=
  "React Hook " ++ hook ++ " was passed a dependency list that is not an array literal. This " ++
    "means we can't statically verify whether you've passed the correct dependencies."

/-- The message for a spread in the array. -/
def spreadMessage (hook : String) : String :=
  "React Hook " ++ hook ++ " has a spread element in its dependency array. This means we can't " ++
    "statically verify whether you've passed the correct dependencies."

/-- The message for a callback that is passed by name. -/
def unknownCallbackMessage (hook : String) : String :=
  "React Hook " ++ hook ++ " received a function whose dependencies are unknown. Pass an inline " ++
    "function instead."

/-- The message for a complex element. -/
def complexMessage (hook : String) : String :=
  "React Hook " ++ hook ++ " has a complex expression in the dependency array. Extract it to a " ++
    "separate variable so it can be statically checked."

end HookLint.Report
