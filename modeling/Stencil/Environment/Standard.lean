import Stencil.Environment.Basic

/-!
# The standard environment

What every template sees: `meta`, which describes the target and stands for the call a template
wraps, the console of the generated program, and a few functions usable at either time.
-/
namespace Stencil.Environment

def value (type : String) (stage : Stage) : Member := ⟨.property, type, stage, none⟩

def method (type : String) (stage : Stage) : Member := ⟨.method, type, stage, none⟩

def proceed (form : CallForm) : Member := ⟨.method, "dynamic", .generated, some form⟩

def standard : Environment := ofEntries
  [("meta", value "Meta" .generationTime),
    ("Console", ⟨.type, "Console", .generated, none⟩),
    ("Math", ⟨.type, "Math", .either, none⟩)]
  [("Meta", [
      ("Target", value "Target" .generationTime),
      ("This", value "dynamic" .generationTime),
      ("Proceed", proceed .plain),
      ("ProceedAsync", proceed .awaitable),
      ("ProceedEnumerable", proceed .sequence),
      ("ProceedEnumerator", proceed .enumerator),
      ("ProceedAsyncEnumerable", proceed .asyncSequence),
      ("ProceedAsyncEnumerator", proceed .asyncEnumerator)]),
    ("Target", [
      ("Method", value "Method" .generationTime),
      ("Parameters", value "List<Parameter>" .generationTime)]),
    ("Method", [
      ("Name", value "string" .generationTime),
      ("ReturnType", value "string" .generationTime)]),
    ("Parameter", [
      ("Name", value "string" .generationTime),
      ("Type", value "string" .generationTime),
      ("Index", value "int" .generationTime),
      ("Value", value "dynamic" .generationTime)]),
    ("List", [("Count", value "int" .either)]),
    ("string", [
      ("Length", value "int" .either),
      ("ToUpper", method "string" .either),
      ("ToLower", method "string" .either)]),
    ("Console", [
      ("WriteLine", method "void" .generated),
      ("Write", method "void" .generated),
      ("ReadLine", method "string" .generated)]),
    ("Math", [
      ("Max", method "int" .either),
      ("Min", method "int" .either),
      ("Abs", method "int" .either)])]

end Stencil.Environment
