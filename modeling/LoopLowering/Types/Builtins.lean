import LoopLowering.Types.ClassTable

namespace LoopLowering

/-!
# Builtin classes

The part of the standard class library that every program may refer to: the
root class, strings, the wrappers of primitive types, iterators, and a few
collections.
-/

namespace ClassTable

namespace Builtin

/-- A type parameter bounded only by the root class. -/
def parameter
    (name : String) :
    TypeVariable :=
  ⟨name, .object⟩

/-- The type variable of a parameter bounded only by the root class. -/
def varOf
    (name : String) :
    Ty :=
  .typeVar name .object

/-- A class of the language package, with its methods. -/
def languageClass
    (name : String)
    (superclass : Option Ty)
    (methods : List (String × Signature)) :
    ClassInfo where
  name := name
  internalName := "java/lang/" ++ name
  typeParams := []
  isInterface := false
  superclass := superclass
  interfaces := []
  methods := .ofList methods

/-- A generic interface, with the interfaces it extends and its methods. -/
def genericInterface
    (package name : String)
    (params : List String)
    (interfaces : List Ty)
    (methods : List (String × Signature)) :
    ClassInfo where
  name := name
  internalName := package ++ name
  typeParams := params.map parameter
  isInterface := true
  superclass := none
  interfaces := interfaces
  methods := .ofList methods

/-- The root class. -/
def objectClass :
    ClassInfo :=
  languageClass "Object" none
    [("toString", ⟨[], .string⟩), ("hashCode", ⟨[], .int⟩), ("equals", ⟨[.object], .boolean⟩)]

/-- The class of string literals. -/
def stringClass :
    ClassInfo :=
  languageClass "String" (some .object) [("length", ⟨[], .int⟩)]

/-- The superclass of the numeric wrappers. -/
def numberClass :
    ClassInfo :=
  languageClass "Number" (some .object)
    ([.byte, .short, .int, .long, .float, .double].map (fun (kind : Primitive) =>
      (kind.name ++ "Value", ⟨[], .primitive kind⟩)))

/-- The wrapper of a primitive type that is a kind of number. -/
def numericWrapper
    (kind : Primitive) :
    ClassInfo :=
  languageClass kind.wrapper (some (.named "Number")) []

/-- The wrapper of a primitive type that is not a kind of number. -/
def plainWrapper
    (kind : Primitive) :
    ClassInfo :=
  languageClass kind.wrapper (some .object)
    [(kind.name ++ "Value", ⟨[], .primitive kind⟩)]

/-- The interface of iterators. -/
def iteratorInterface :
    ClassInfo :=
  genericInterface "java/util/" "Iterator" ["E"] []
    [("hasNext", ⟨[], .boolean⟩), ("next", ⟨[], varOf "E"⟩)]

/-- The interface of everything a loop can iterate over, arrays apart. -/
def iterableInterface :
    ClassInfo :=
  genericInterface "java/lang/" "Iterable" ["T"] []
    [("iterator", ⟨[], .classType "Iterator" [varOf "T"]⟩)]

/-- The interface of collections. -/
def collectionInterface :
    ClassInfo :=
  genericInterface "java/util/" "Collection" ["E"] [.classType "Iterable" [varOf "E"]]
    [("size", ⟨[], .int⟩), ("isEmpty", ⟨[], .boolean⟩),
      ("add", ⟨[varOf "E"], .boolean⟩)]

/-- The interface of lists. -/
def listInterface :
    ClassInfo :=
  genericInterface "java/util/" "List" ["E"] [.classType "Collection" [varOf "E"]]
    [("get", ⟨[.int], varOf "E"⟩)]

/-- The interface of sets. -/
def setInterface :
    ClassInfo :=
  genericInterface "java/util/" "Set" ["E"] [.classType "Collection" [varOf "E"]] []

/-- The class of resizable lists. -/
def arrayListClass :
    ClassInfo where
  name := "ArrayList"
  internalName := "java/util/ArrayList"
  typeParams := [parameter "E"]
  isInterface := false
  superclass := some .object
  interfaces := [.classType "List" [varOf "E"]]
  methods := []

/-- The interface of maps, which cannot be iterated. -/
def mapInterface :
    ClassInfo :=
  genericInterface "java/util/" "Map" ["K", "V"] []
    [("get", ⟨[.object], varOf "V"⟩)]

/-- Every builtin class. -/
def all :
    List ClassInfo :=
  [objectClass, stringClass, numberClass] ++
    ([.byte, .short, .int, .long, .float, .double].map numericWrapper) ++
    [plainWrapper .boolean, plainWrapper .char,
      iteratorInterface, iterableInterface, collectionInterface, listInterface, setInterface,
      arrayListClass, mapInterface]

end Builtin

/-- The table of builtin classes, without functions. -/
def builtin :
    ClassTable where
  classes := .ofList (Builtin.all.map (fun info => (info.name, info)))
  functions := []
  owner := "Main"

end ClassTable

end LoopLowering
