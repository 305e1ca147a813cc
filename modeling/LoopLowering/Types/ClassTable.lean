import LoopLowering.Source.Handles
import LoopLowering.Types.Ty

namespace LoopLowering

/-!
# Class tables

The classes and static functions a method body can refer to. A class is known
by its type parameters, its direct supertypes and the signatures of its
methods; a method has one signature per name.
-/

/-- Parameter types and result type of a method or function. -/
structure Signature where
  params : List Ty
  returnType : Ty
  deriving Repr, DecidableEq

/-- What is known of a class or interface. -/
structure ClassInfo where
  name : String
  /-- The name with its package, as instructions spell it. -/
  internalName : String
  typeParams : List TypeVariable
  isInterface : Bool
  superclass : Option Ty
  interfaces : List Ty
  methods : NameTable Signature
  deriving Repr

namespace ClassInfo

/-- A class of which only the name is known so far. -/
def announced
    (name : String)
    (isInterface : Bool) :
    ClassInfo where
  name := name
  internalName := name
  typeParams := []
  isInterface := isInterface
  superclass := none
  interfaces := []
  methods := []

/-- The declared supertypes, the superclass first. -/
def supertypes
    (info : ClassInfo) :
    List Ty :=
  info.superclass.toList ++ info.interfaces

end ClassInfo

/-- A static function with the class that owns it. -/
structure FunctionInfo where
  owner : String
  signature : Signature
  deriving Repr

/-- The classes and functions visible to method bodies. -/
structure ClassTable where
  classes : NameTable ClassInfo
  functions : NameTable FunctionInfo
  /-- The class that owns functions declared from now on. -/
  owner : String
  deriving Repr

namespace ClassTable

/-- The class of a name. -/
def class?
    (table : ClassTable)
    (name : String) :
    Option ClassInfo :=
  table.classes.find? name

/-- The static function of a name. -/
def function?
    (table : ClassTable)
    (name : String) :
    Option FunctionInfo :=
  table.functions.find? name

/-- Declare a class under its name. -/
def addClass
    (info : ClassInfo)
    (table : ClassTable) :
    ClassTable :=
  { table with classes := table.classes.insert info.name info }

/-- Declare a static function of the current owner. -/
def addFunction
    (name : String)
    (signature : Signature)
    (table : ClassTable) :
    ClassTable :=
  { table with functions := table.functions.insert name ⟨table.owner, signature⟩ }

/-- The internal name of a class; a class nobody declared has its own name. -/
def internalName
    (table : ClassTable)
    (name : String) :
    String :=
  ((table.class? name).map ClassInfo.internalName).getD name

/-- Whether a class is declared as an interface. -/
def isInterface
    (table : ClassTable)
    (ty : Ty) :
    Bool :=
  match ty.erasure with
  | .classType name _ => ((table.class? name).map ClassInfo.isInterface).getD false
  | _ => false

/-!
## Type descriptors

Instructions refer to classes by internal name and to types by descriptor, a
text without type arguments.
-/

/-- The descriptor of a type. A type variable or wildcard has that of its
erasure, and a type without a class of its own that of the root class. -/
def descriptor
    (table : ClassTable) :
    Ty → String
  | .primitive kind => kind.descriptor
  | .array component => "[" ++ table.descriptor component
  | .void => "V"
  | .classType name _ => "L" ++ table.internalName name ++ ";"
  | .typeVar _ bound => table.descriptor bound
  | .wildcardExtends bound => table.descriptor bound
  | .wildcard | .null | .unknown => "L" ++ table.internalName "Object" ++ ";"

/-- The descriptor of a method. -/
def methodDescriptor
    (table : ClassTable)
    (signature : Signature) :
    String :=
  "(" ++ String.join (signature.params.map (fun param => table.descriptor param.erasure)) ++ ")" ++
    table.descriptor signature.returnType.erasure

/-- The name by which an instruction refers to a reference type. -/
def referenceName
    (table : ClassTable)
    (ty : Ty) :
    String :=
  match ty.erasure with
  | .classType name _ => table.internalName name
  | .array component => table.descriptor (.array component)
  | _ => table.internalName "Object"

end ClassTable

end LoopLowering
